import CS330.Spec.Tree

/-! Files written from front to back.

`Tree.ofBytes V n` is the tree of a file that holds the first `n` bytes of `V`: its
blocks in order, the last one filled up with zeros. A write at the end of such a
file gives such a file again, and a read gives its bytes, as long as the request
does not pass a 4 MB boundary without starting on one: only there does the code
go on with the next table. -/
namespace CS330.Spec
open ObjStore

/-- Where requests must not pass a boundary between two tables. -/
def Straight (offset : Nat) (size : Int) : Prop :=
  offset % 4194304 = 0 ∨ (offset % 4194304 : Nat) + size ≤ 4194304

instance (offset : Nat) (size : Int) : Decidable (Straight offset size) :=
  inferInstanceAs (Decidable (_ ∨ _))

namespace Tree

def ofBytes (V : Buffer) (n : Nat) : Tree := fun j =>
  if j < 4 ∧ j * 4194304 < n then
    some fun k => if k < 1024 ∧ j * 4194304 + k * 4096 < n then
      some ((padded V n).page (j * 4194304 + k * 4096)) else none
  else none

theorem ofBytes_some (V : Buffer) {n j : Nat} (h : j < 4 ∧ j * 4194304 < n) : ofBytes V n j =
    some fun k => if k < 1024 ∧ j * 4194304 + k * 4096 < n then
      some ((padded V n).page (j * 4194304 + k * 4096)) else none := if_pos h

theorem ofBytes_entry (V : Buffer) (n j k : Nat) : (ofBytes V n).entry j k =
    if j < 4 ∧ k < 1024 ∧ j * 4194304 + k * 4096 < n then
      some ((padded V n).page (j * 4194304 + k * 4096)) else none := by
  unfold entry ofBytes
  by_cases hj : j < 4 ∧ j * 4194304 < n
  · rw [if_pos hj]
    simp [hj.1]
  · rw [if_neg hj, if_neg (by omega)]
    rfl

theorem ofBytes_zero (V : Buffer) : ofBytes V 0 = empty := by
  funext j
  exact if_neg (by omega)

/-! ### Appending -/

section Append
variable {V W buf : Buffer} {a n : Nat}

/-- A page of the old bytes. -/
theorem page_old (hold : ∀ i, i < a → W i = V i) {p : Nat} (hp : p + 4096 ≤ a) :
    (padded V a).page p = (padded W (a + n : Nat)).page p := by
  funext i
  have hi := i.isLt
  unfold Buffer.page padded
  rw [if_pos (by omega), if_pos (by omega), hold _ (by omega)]

/-- A page of the new bytes. -/
theorem page_new (hnew : ∀ i, i < n → W (a + i) = buf i) (q : Nat) :
    (padded buf n).page q = (padded W (a + n : Nat)).page (a + q) := by
  funext i
  unfold Buffer.page padded
  by_cases hq : q + i.val < n
  · rw [if_pos (by omega), if_pos (by omega), Nat.add_assoc, hnew _ hq]
  · rw [if_neg (by omega), if_neg (by omega)]

/-- A page of the request exists when it has a byte of it. -/
theorem lt_capOf {p : Nat} (hp : p % 4096 = 0) : p < capOf n ↔ p < n := by
  have := capOf_spec (show (0 : Int) ≤ n by omega)
  omega

/-- A write at the end of a file from which no table boundary lies ahead within it. -/
theorem write_ofBytes (ha : a % 4096 = 0) (h₀ : 0 < n) (hend : a + n ≤ 16777216)
    (hs : Straight a n) (hold : ∀ i, i < a → W i = V i) (hnew : ∀ i, i < n → W (a + i) = buf i) :
    (ofBytes V a).write buf n a = ofBytes W (a + n) := by
  unfold Straight at hs
  funext j
  unfold write
  rw [firstOf_eq, entryOf_eq]
  dsimp only
  by_cases hbefore : j < a / 4194304
  · -- a table that is full already
    rw [if_pos hbefore, ofBytes_some V (by omega), ofBytes_some W (by omega)]
    congr 1
    funext k
    by_cases hk : k < 1024
    · rw [if_pos (by omega), if_pos (by omega), page_old (n := n) hold (by omega)]
    · rw [if_neg (by omega), if_neg (by omega)]
  rw [if_neg hbefore]
  by_cases hafter : 4 ≤ j ∨ (n : Int) ≤ ((j - a / 4194304) * 4194304 : Nat)
  · rw [if_pos hafter]
    exact (if_neg (by omega)).symm
  rw [if_neg hafter, ofBytes_some W (by omega)]
  congr 1
  funext k
  -- below the first table written to the start is 0, and the request started on a boundary
  have hstart : startAt (a / 4194304) (a % 4194304 / 4096) j = a % 4194304 / 4096 := by
    unfold startAt
    split <;> omega
  rw [hstart]
  by_cases hk : k < a % 4194304 / 4096
  · rw [if_pos hk, ofBytes_entry, if_pos (by omega), if_pos (by omega), page_old (n := n) hold (by omega)]
  · rw [if_neg hk]
    have hpage : a + ((j - a / 4194304) * 4194304 + (k - a % 4194304 / 4096) * 4096) =
        j * 4194304 + k * 4096 := by omega
    have hiff : (k < 1024 ∧ (j - a / 4194304) * 4194304 + (k - a % 4194304 / 4096) * 4096 < n) ↔
        (k < 1024 ∧ j * 4194304 + k * 4096 < a + n) := by omega
    have hcap := @lt_capOf n ((j - a / 4194304) * 4194304 + (k - a % 4194304 / 4096) * 4096) (by omega)
    rw [← hcap] at hiff
    by_cases hin : k < 1024 ∧ j * 4194304 + k * 4096 < a + n
    · rw [if_pos (hiff.mpr hin), if_pos hin, page_new hnew, hpage]
    · rw [if_neg fun h => hin (hiff.mp h), if_neg hin]

end Append

/-! ### Reading and measuring -/

section Read
variable {V : Buffer} {offset n : Nat} {size : Int}

theorem byte_ofBytes (ha : offset % 4096 = 0) (hs : Straight offset size) (hsize : offset + size ≤ n)
    (hn : n ≤ 16777216) {a : Nat} (hlt : a < size) : (ofBytes V n).byte size offset a = V (offset + a) := by
  unfold Straight at hs
  have hcap : a / 4096 * 4096 < capOf size := by
    have := (capOf_spec (show 0 ≤ size by omega)).1
    omega
  have hj : firstOf offset + a / 4194304 = (offset + a) / 4194304 := by rw [firstOf_eq]; omega
  have hstart : startAt (firstOf offset) (entryOf offset) ((offset + a) / 4194304) =
      offset % 4194304 / 4096 := by
    rw [firstOf_eq, entryOf_eq, startAt]
    split <;> omega
  have hk : offset % 4194304 / 4096 + a % 4194304 / 4096 = (offset + a) % 4194304 / 4096 := by omega
  have hentry : ∀ k, k ≤ (offset + a) % 4194304 / 4096 → (ofBytes V n).entry ((offset + a) / 4194304) k =
      some ((padded V n).page ((offset + a) / 4194304 * 4194304 + k * 4096)) := by
    intro k hk
    rw [ofBytes_entry]
    exact if_pos (by omega)
  have hreads : (ofBytes V n).Reads ((offset + a) / 4194304) (offset % 4194304 / 4096)
      ((offset + a) % 4194304 / 4096) := by
    intro i hi _
    rw [hentry i (by omega)]
    rfl
  have hall : (offset + a) / 4194304 < 4 ∧ (offset + a) % 4194304 / 4096 < 1024 := by omega
  unfold byte
  dsimp only
  rw [hj, hstart, hk, if_pos ⟨hall.1, hall.2, hcap, hreads⟩, hentry _ (Nat.le_refl _), Option.getD_some]
  unfold Buffer.page padded
  rw [Fin.val_ofNat]
  have hpos : (offset + a) / 4194304 * 4194304 + (offset + a) % 4194304 / 4096 * 4096 + a % 4096 =
      offset + a := by omega
  rw [hpos, if_pos (by omega)]

theorem read_ofBytes (ha : offset % 4096 = 0) (hs : Straight offset size) (hsize : offset + size ≤ n)
    (hn : n ≤ 16777216) :
    (ofBytes V n).read size offset = (List.range size.toNat).map fun i => V (offset + i) := by
  unfold read
  refine List.map_congr_left fun i hi => ?_
  have hi := List.mem_range.mp hi
  rw [ha, Nat.add_zero]
  exact byte_ofBytes ha hs hsize hn (by omega)

/-- A prefix ends where its condition does. -/
theorem prefixLength_eq {p : Nat → Bool} {m : Nat} (k i : Nat)
    (hp : ∀ l, i ≤ l → l < i + k → (p l = true ↔ l < m)) : prefixLength p k i = min k (m - i) := by
  induction k generalizing i with
  | zero => simp [prefixLength]
  | succ k ih =>
    unfold prefixLength
    rw [ih (i + 1) fun l h₁ h₂ => hp l (by omega) (by omega)]
    have hi := hp i (Nat.le_refl i) (by omega)
    by_cases him : i < m
    · rw [if_pos (hi.mpr him)]
      omega
    · rw [if_neg fun h => him (hi.mp h)]
      omega

theorem blocks_table (V : Buffer) (n : Nat) {j : Nat} (hj : j < 4) :
    prefixLength (fun k => ((ofBytes V n).entry j k).isSome) 1024 0 =
      min 1024 ((n - j * 4194304 + 4095) / 4096) := by
  refine prefixLength_eq (m := (n - j * 4194304 + 4095) / 4096) 1024 0 fun k _ hk => ?_
  rw [ofBytes_entry]
  by_cases h : j * 4194304 + k * 4096 < n
  · rw [if_pos (by omega)]
    exact iff_of_true rfl (by omega)
  · rw [if_neg (by omega)]
    exact iff_of_false Bool.noConfusion (by omega)

theorem blocksFrom_ofBytes (V : Buffer) (n : Nat) (m j : Nat) (hm : j + m = 4) :
    (ofBytes V n).blocksFrom m j = min (m * 1024) ((n - j * 4194304 + 4095) / 4096) := by
  induction m generalizing j with
  | zero =>
    rw [blocksFrom]
    omega
  | succ m ih =>
    rw [blocksFrom, blocks_table V n (by omega), ih (j + 1) (by omega)]
    by_cases h : j * 4194304 < n
    · rw [if_pos (by rw [ofBytes_some V (by omega)]; rfl)]
      omega
    · rw [if_neg (by rw [ofBytes, if_neg (by omega)]; exact Bool.noConfusion)]
      omega

theorem blocks_ofBytes (V : Buffer) (hn : n ≤ 16777216) : (ofBytes V n).blocks = (n + 4095) / 4096 := by
  rw [blocks, blocksFrom_ofBytes V n 4 0 rfl]
  omega

end Read

end Tree

end CS330.Spec
