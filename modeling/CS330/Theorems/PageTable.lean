import CS330.GemOS.Tables

/-! The page table as a map from pages to frames.

A walk is the list of the four entries on the way to an address, so two walks that
are equal have the same translation, the same leaf flags and the same permissions on
every level. Fixing a fault and freeing a page change the walk of one page only. -/
namespace CS330.GemOS

variable {m t : Memory} {pgd addr : Nat}

/-- The pages that two addresses below 2^48 are in. -/
theorem path_ne {a b : Nat} (ha : a < 2 ^ 48) (hb : b < 2 ^ 48) (h : b / 4096 ≠ a / 4096) : path b ≠ path a :=
  fun hc => h (path_inj hb ha hc)

/-! ### The map -/

/-- **The page table refines a map from pages to frames**: fixing a fault maps the page to a
fresh frame if it had none and changes nothing if it had one, freeing takes exactly the
page's frame, and the walk of every other page is as it was. -/
theorem page_table_refines {alloc : Allocator} {flags a : Nat} (htree : PageTree m pgd)
    (halloc : Honest alloc 4 m.owner) (ha : a < 2 ^ 48) :
    (∃ t, assignPage alloc pgd a flags 0 m = some t ∧ PageTree t pgd ∧
      isValidVirtualAddr a pgd t = 1 ∧
      (isValidVirtualAddr a pgd m = 1 → t = m) ∧
      (isValidVirtualAddr a pgd m = 0 → ∃ g, t.translate pgd a = some g ∧ m.owner g = none ∧
        t.owner g = some .userReg) ∧
      ∀ b < 2 ^ 48, b / 4096 ≠ a / 4096 → t.walk pgd b = m.walk pgd b) ∧
    isValidVirtualAddr a pgd (freeDataPage a pgd m) = 0 ∧
    (freeDataPage a pgd m).freed =
      ((m.translate pgd a).map fun g => (Region.userReg, g)).toList ++ m.freed ∧
    (∀ f, (freeDataPage a pgd m).owner f = if m.translate pgd a = some f then none else m.owner f) ∧
    ∀ b < 2 ^ 48, b / 4096 ≠ a / 4096 → (freeDataPage a pgd m).walk pgd b = m.walk pgd b := by
  constructor
  · obtain ⟨t, ht, -⟩ := Honest.assignPage (k := 0) halloc pgd a flags 0
    obtain ⟨htree', hgrows, hmapped⟩ := assignPage_spec htree (Spare.zero pgd m) ht
    refine ⟨t, ht, htree', valid_iff.mpr hmapped, fun h => ?_, fun h => ?_, fun b hb hne => ?_⟩
    · exact hgrows.eq_of_mapped (valid_iff.mp h)
    · exact hgrows.mapped (invalid_iff.mp h) hmapped
    · exact hgrows.walk (path_ne ha hb hne)
  · have hfree := @freeDataPage_spec m pgd a htree.tree
    exact ⟨invalid_iff.mpr hfree.unmapped_after, hfree.freed_eq, hfree.owner_eq,
      fun b hb hne => hfree.walk (path_ne ha hb hne)⟩

/-- The first fault of a process: its page gets a frame, and the page next to it does not. -/
theorem page_table_refines_first : ∃ t, assignPage (lowest 8) 0 0x180000000 3 0 (.bare 0) = some t ∧
    isValidVirtualAddr 0x180000000 0 t = 1 ∧ isValidVirtualAddr 0x180001000 0 t = 0 := by
  have halloc : Honest (lowest 8) 4 (Memory.bare 0).owner :=
    honest_lowest (c := 1) le_rfl (fun g hg => owner_bare (by omega)) (by omega) (by omega)
  obtain ⟨⟨t, ht, -, hvalid, -, -, hother⟩, -⟩ :=
    @page_table_refines (.bare 0) 0 (lowest 8) 3 0x180000000 (pageTree_bare 0) halloc (by omega)
  refine ⟨t, ht, hvalid, invalid_iff.mpr ?_⟩
  rw [hother 0x180001000 (by omega) (by omega)]
  exact walk_bare 0 _

end CS330.GemOS
