import CS330.ObjStore.Exec

/-! How many pages a call asks for.

Fetching or storing a block asks for at most one page, and no call goes over more
than four tables of 1024 entries: 4110 pages are enough for any of them, 4 for a
measurement. -/
namespace CS330.ObjStore

/-- At most `n` pages were asked for. -/
def Asks (n : Nat) (s t : State) : Prop := pageCalls t.log ≤ pageCalls s.log + n

section Asks
variable {build : Build} {m n : Nat} {s t u : State}

theorem Asks.refl (n : Nat) (s : State) : Asks n s s := Nat.le_add_right _ n

theorem Asks.trans (h₁ : Asks m s t) (h₂ : Asks n t u) : Asks (m + n) s u := by
  unfold Asks at h₁ h₂ ⊢
  omega

theorem Asks.mono (h : Asks m s t) (hmn : m ≤ n) : Asks n s t :=
  Nat.le_trans h (Nat.add_le_add_left hmn _)

theorem Idle.asks (h : Idle s t) (n : Nat) : Asks n s t := by
  unfold Asks
  rw [h.pages]
  exact Nat.le_add_right _ n

theorem fetch_asks (b : Int) (addr : Nat) (buf : Block) (s : State) :
    Asks 1 s (fetch build b addr buf s).2.2 := by
  obtain h | ⟨-, h⟩ := fetch_moves build b addr buf s
  · exact h.asks 1
  · exact Nat.le_of_eq h.pages

theorem store_asks (b : Int) (addr : Nat) (buf : Block) (s : State) :
    Asks 1 s (store build b addr buf s).2 := by
  obtain h | ⟨-, h⟩ := store_moves build b addr buf s
  · exact h.asks 1
  · exact Nat.le_of_eq h.pages

theorem fault_asks (n : Nat) (s : State) : Asks n s (s.emit .fault) := Asks.refl n s

/-! ### Reading -/

theorem readEntries_asks (block : Nat → Int) (blockOffset offset size n i : Nat) (buf : Buffer) (s : State) :
    Asks n s (readEntries build block blockOffset offset size n i buf s).2 := by
  induction n generalizing i buf s with
  | zero => exact .refl 0 s
  | succ n ih =>
    unfold readEntries
    dsimp only
    split_ifs
    · exact .refl _ s
    · exact .refl _ s
    · exact (fetch_asks ..).mono (by omega)
    · exact ((fetch_asks ..).trans (ih ..)).mono (by omega)

theorem readIndirectBlock_asks (b : Int) (blockOffset : Nat) (buf : Buffer) (offset size : Nat) (s : State) :
    Asks 1025 s (readIndirectBlock build b blockOffset buf offset size s).2 := by
  unfold readIndirectBlock
  split
  · exact .refl _ s
  · exact ((fetch_asks ..).trans (readEntries_asks ..)).mono (by omega)

theorem readPointers_asks (x : Nat) (size : Int) (cap first n i blockOffset : Nat) (buf : Buffer) (s : State) :
    Asks (n * 1025) s (readPointers build x size cap first n i blockOffset buf s).2 := by
  induction n generalizing i blockOffset buf s with
  | zero => exact .refl _ s
  | succ n ih =>
    unfold readPointers
    dsimp only
    split
    · exact .refl _ s
    · exact ((readIndirectBlock_asks ..).trans (ih ..)).mono (by omega)

theorem readObject_asks (x : Nat) (size : Int) (offset : Nat) (s : State) :
    Asks 4100 s (readObject build x size offset s).2.2 := by
  unfold readObject
  split
  · exact fault_asks _ s
  · dsimp only
    split
    · exact ((readPointers_asks ..).trans (fault_asks 0 _)).mono (by omega)
    · exact (readPointers_asks ..).mono (by omega)

theorem objstoreRead_asks (id size : Int) (offset : Nat) (s : State) :
    Asks 4100 s (objstoreRead build id size offset s).2.2 := by
  unfold objstoreRead
  dsimp only
  split_ifs
  · exact .refl _ s
  · exact fault_asks _ s
  · exact .refl _ s
  · exact readObject_asks ..

/-! ### Writing -/

theorem entryBlock_asks (block : Nat → Int) (i : Nat) (s : State) : Asks 0 s (entryBlock block i s).2 := by
  unfold entryBlock
  split
  · exact (newBlock_idle rfl).asks 0
  · exact .refl 0 s

theorem writeEntries_asks (buf : Buffer) (blockOffset offset size n i : Nat) (block : Nat → Int) (s : State) :
    Asks n s (writeEntries build buf blockOffset offset size n i block s).2.2 := by
  induction n generalizing i block s with
  | zero => exact .refl 0 s
  | succ n ih =>
    have hentry : ∀ page, Asks 1 s (store build ((entryBlock block i s).1 i) 0 page (entryBlock block i s).2).2 :=
      fun page => ((entryBlock_asks block i s).trans (store_asks ..)).mono (by omega)
    unfold writeEntries
    dsimp only
    split_ifs
    · exact .refl _ s
    · exact (hentry _).mono (by omega)
    · exact ((hentry _).trans (ih ..)).mono (by omega)

theorem indirectBlock_asks (b : Int) (s : State) : Asks 0 s (indirectBlock b s).2 := by
  obtain ⟨r, hr⟩ : ∃ r, getNewDatablock s = r := ⟨_, rfl⟩
  unfold indirectBlock
  rw [hr]
  split
  · exact ((newBlock_idle hr).trans (initializeBlock_idle ..)).asks 0
  · exact .refl 0 s

theorem writeIndirectBlock_asks (b : Int) (blockOffset : Nat) (buf : Buffer) (offset size : Nat) (s : State) :
    Asks 1027 s (writeIndirectBlock build b blockOffset buf offset size s).2 := by
  unfold writeIndirectBlock
  dsimp only
  have htable := (indirectBlock_asks b s).trans (@fetch_asks build (indirectBlock b s).1 0 zeroBlock _)
  exact (((htable.trans (writeEntries_asks ..)).trans (store_asks ..)).trans (fetch_asks ..)).mono (by omega)

theorem writePointers_asks (x : Nat) (buf : Buffer) (size : Int) (cap first n i blockOffset : Nat) (s : State) :
    Asks (n * 1027) s (writePointers build x buf size cap first n i blockOffset s).2 := by
  induction n generalizing i blockOffset s with
  | zero => exact .refl _ s
  | succ n ih =>
    unfold writePointers
    dsimp only
    split
    · exact .refl _ s
    · have htable := @writeIndirectBlock_asks build ((s.obj x).dataBlockPointers i) blockOffset buf
        ((i - first) * 4194304) cap s
      exact (Asks.trans (t := setPointer x i _ _) htable (ih ..)).mono (by omega)

theorem readIndirectHelper_asks (b : Int) (blockOffset : Nat) (buf : Buffer) (cap : Nat) (s : State) :
    Asks 2 s (readIndirectHelper build b blockOffset buf cap s).2 := by
  unfold readIndirectHelper
  dsimp only
  split_ifs
  · exact (fetch_asks ..).mono (by omega)
  · exact ((fetch_asks ..).trans (fetch_asks ..)).trans (fault_asks 0 _)
  · exact (fetch_asks ..).trans (fetch_asks ..)

theorem fillBuffer_asks (x : Nat) (buf : Buffer) (size : Int) (start offset cap : Nat) (s : State) :
    Asks 2 s (fillBuffer build x buf size start offset cap s).2 := by
  have hold : Asks 2 s (oldBytes build x start offset cap s).2 := by
    unfold oldBytes
    split_ifs
    · exact fault_asks _ s
    · exact readIndirectHelper_asks ..
    · exact .refl _ s
  unfold fillBuffer
  dsimp only
  split
  · exact hold.trans (fault_asks 0 _)
  · exact hold

theorem objstoreWrite_asks (id : Int) (buf : Buffer) (size : Int) (offset : Nat) (s : State) :
    Asks 4110 s (objstoreWrite build id buf size offset s).2 := by
  unfold objstoreWrite writeObject
  dsimp only
  split_ifs
  · exact .refl _ s
  · exact fault_asks _ s
  · exact .refl _ s
  · split
    · exact fault_asks _ s
    · exact (Asks.trans (fillBuffer_asks ..) (writePointers_asks ..)).mono (by omega)

/-! ### Measuring -/

theorem calNumberBlocks_asks (b : Int) (s : State) : Asks 1 s (calNumberBlocks build b s).2 := by
  unfold calNumberBlocks
  split
  · exact .refl _ s
  · exact fetch_asks ..

theorem countPointers_asks (x n i k : Nat) (s : State) : Asks n s (countPointers build x n i k s).2 := by
  induction n generalizing i k s with
  | zero => exact .refl _ s
  | succ n ih =>
    unfold countPointers
    dsimp only
    split
    · exact .refl _ s
    · exact ((calNumberBlocks_asks ..).trans (ih ..)).mono (by omega)

theorem fillupSizeDetails_asks (id : Int) (s : State) : Asks 4 s (fillupSizeDetails build id s).2.2.2 := by
  unfold fillupSizeDetails
  dsimp only
  split_ifs
  · exact .refl _ s
  · exact fault_asks _ s
  · exact .refl _ s
  · exact countPointers_asks ..

/-- No call asks for more than 4110 pages. -/
theorem exec_asks {op : Op} {r : Ret} (h : exec build op s = some (r, t)) (hop : op ≠ .remount) :
    Asks 4110 s t := by
  cases op with
  | create key =>
    obtain ⟨q, hq, hqr⟩ := Option.map_eq_some_iff.mp h
    cases hqr
    exact .mono (Nat.le_of_eq (Walk.uncached (createObject_walk hq))) (Nat.zero_le _)
  | find key =>
    cases h
    exact .refl _ s
  | destroy key =>
    cases h
    exact (destroyObject_idle key s).asks _
  | rename key newname =>
    obtain ⟨q, hq, hqr⟩ := Option.map_eq_some_iff.mp h
    cases hqr
    exact .mono (Nat.le_of_eq (Walk.uncached (renameObject_walk hq))) (Nat.zero_le _)
  | read id size offset =>
    cases h
    exact (objstoreRead_asks ..).mono (by omega)
  | write id data offset =>
    cases h
    exact objstoreWrite_asks ..
  | stat id =>
    cases h
    exact (fillupSizeDetails_asks ..).mono (by omega)
  | remount => exact absurd rfl hop

end Asks

end CS330.ObjStore
