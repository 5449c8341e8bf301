import CS330.ObjStore.Runs
import CS330.Spec.Positions

/-! Putting a value and getting it back, in the build without a cache.

A value written to a fresh object in chunks is reported with its length and its
number of blocks, and every read in chunks gives its bytes: the chunks are whole
blocks and tables are filled by whole chunks, so no request passes a table's end. -/
namespace CS330.ObjStore
open Bytes Spec Machine

/-- Chunk `m` of a value. -/
def chunk (V : List UInt8) (c m : Nat) : List UInt8 := (V.drop (m * c)).take c

/-- The writes that put a value, chunk by chunk. -/
def putOps (id : Int) (V : List UInt8) (c : Nat) : List Op :=
  (List.range ((V.length + c - 1) / c)).map fun m => .write id (chunk V c m) (m * c)

/-- Chunks are whole blocks, and a table holds a whole number of them. -/
def ChunkSize (c : Nat) : Prop := 4096 ∣ c ∧ c ∣ 4194304

section Chunks
variable {V : List UInt8} {c m : Nat}

theorem ChunkSize.pos (hc : ChunkSize c) : 0 < c := Nat.pos_of_dvd_of_pos hc.2 (by decide)

theorem ChunkSize.straight (hc : ChunkSize c) {a : Nat} (ha : c ∣ a) {size : Int} (hs : size ≤ c) :
    Straight a size := by
  refine .inr ?_
  obtain ⟨q, hq⟩ := hc.2
  obtain ⟨p, rfl⟩ := ha
  have hlt : p % q < q := Nat.mod_lt _ (Nat.pos_of_ne_zero (by rintro rfl; omega))
  have hmod : c * p % 4194304 = c * (p % q) := by rw [hq, Nat.mul_mod_mul_left]
  have hle : c * (p % q + 1) ≤ c * q := Nat.mul_le_mul_left c hlt
  rw [Nat.mul_add] at hle
  omega

theorem chunk_length (V : List UInt8) (c m : Nat) : (chunk V c m).length = min c (V.length - m * c) := by
  unfold chunk
  rw [List.length_take, List.length_drop]

theorem bufferOf_chunk {i : Nat} (hi : i < (chunk V c m).length) :
    bufferOf V (m * c + i) = bufferOf (chunk V c m) i := by
  rw [chunk_length] at hi
  unfold bufferOf chunk
  rw [List.getD_eq_getElem?_getD, List.getD_eq_getElem?_getD, List.getElem?_take_of_lt (by omega),
    List.getElem?_drop]

/-- The chunk before the last byte begins before it. -/
theorem chunk_before (hc : ChunkSize c) (hm : m < (V.length + c - 1) / c) : m * c < V.length := by
  have hpos := hc.pos
  have h := (Nat.le_div_iff_mul_le hpos).mp (Nat.succ_le_of_lt hm)
  rw [Nat.succ_mul] at h
  omega

theorem chunks_end (hc : ChunkSize c) : V.length ≤ (V.length + c - 1) / c * c := by
  have hpos := hc.pos
  have := Nat.div_add_mod (V.length + c - 1) c
  have := Nat.mod_lt (V.length + c - 1) hpos
  rw [Nat.mul_comm]
  omega

end Chunks

/-! ### Putting -/

section Put
variable {id : Int} {V : List UInt8} {c : Nat} {s : State}

/-- A write of no bytes at the start leaves nothing. -/
theorem write_nothing (T : Tree) (buf : Buffer) : T.write buf 0 0 = Tree.empty :=
  (Tree.write_zero T buf 0).trans (Tree.ofBytes_zero buf)

/-- An object of size 0 has no blocks. -/
theorem empty_file {n : Nat} (hn : n ≤ bitmapSize)
    (h : Reaches (exec .uncached) (Fair .uncached) (mount (zeroDisk n)) s) {x : Nat} {f : File}
    (hx : filesOf s x = some f) (hsize : f.size = 0) : f = File.new := by
  have hall := reaches_files (P := fun f => f.size = 0 → f = File.new) hn h (fun _ _ _ h => h)
    (fun _ => rfl) ?_
  · exact hall x f hx hsize
  rintro id data offset f s t ⟨⟨hoff, -, hlen⟩, -⟩ - - hzero
  have hle := (not_irregular.mp hoff).2
  have htaken := Files.taken_eq hlen hle
  have hsum : (offset : Int) + Files.taken data offset = 0 := hzero
  have h₀ : offset = 0 := by omega
  have h₁ : Files.taken data offset = 0 := by omega
  unfold File.write
  rw [h₁, h₀, write_nothing]
  rfl

theorem runAll_snoc {build : Build} {op : Op} {ops : List Op} {rs : List Ret} {r : Ret} {t u : State}
    (h : runAll (step build) ops s = some (rs, t)) (hop : exec build op t = some (r, u))
    (hu : Returned u) : runAll (step build) (ops ++ [op]) s = some (rs ++ [r], u) :=
  runAll_append h (runAll_cons.mpr ⟨r, u, [], step_some.mpr ⟨hop, hu⟩, rfl, rfl⟩)

/-- After the first `m` chunks. -/
theorem put_chunks (hs : Sound .uncached s) (hcall : Calling s) (hid : 2 ≤ id)
    (hx : filesOf s (idToIndex id) = some File.new) (hc : ChunkSize c) (hV : V.length ≤ 16777216)
    (m : Nat) (hm : m ≤ (V.length + c - 1) / c) : ∃ t, runAll (step .uncached)
      ((List.range m).map fun m => .write id (chunk V c m) (m * c)) s =
        some ((List.range m).map fun m => .val (chunk V c m).length, t) ∧
      Sound .uncached t ∧ Calling t ∧ LiveSlot t (idToIndex id) ∧
      (¬ Failed t → filesOf t (idToIndex id) =
        some ⟨(min (m * c) V.length : Nat), Tree.ofBytes (bufferOf V) (min (m * c) V.length)⟩) := by
  induction m with
  | zero =>
    refine ⟨s, rfl, hs, hcall, (filesOf_eq_some.mp hx).1, fun _ => ?_⟩
    rw [hx, Nat.zero_mul, Nat.zero_min, Tree.ofBytes_zero]
    rfl
  | succ m ih =>
    obtain ⟨t, hrun, ht, hcall, hlive, hfile⟩ := ih (by omega)
    have hlt := chunk_before hc hm
    have hlen := chunk_length V c m
    have hpos := hc.pos
    have hmul : (m + 1) * c = m * c + c := Nat.succ_mul m c
    have hreg : (Op.write id (chunk V c m) (m * c)).Regular := by
      refine ⟨?_, (ht.owned.choose_spec.slot _ hlive).1, by omega⟩
      have hal : m * c % 4096 = 0 := Nat.mod_eq_zero_of_dvd (Dvd.dvd.mul_left hc.1 m)
      rintro (h | h)
      · exact h hal
      · omega
    have htaken : Files.taken (chunk V c m) (m * c) = (chunk V c m).length := by
      rw [Files.taken_eq (by omega) (by omega)]
      omega
    obtain ⟨u, hu⟩ : ∃ u, exec .uncached (.write id (chunk V c m) (m * c)) t =
        some (.val (objstoreWrite .uncached id (bufferOf (chunk V c m)) (int32 (chunk V c m).length)
          (m * c) t).1, u) := ⟨_, rfl⟩
    have hcall' := exec_returned_uncached hu (by simp) hreg hcall
    have hsnd : u = (objstoreWrite .uncached id (bufferOf (chunk V c m)) (int32 (chunk V c m).length)
        (m * c) t).2 := (Prod.mk.inj (Option.some.inj hu)).2.symm
    obtain ⟨hret, hlive'⟩ := objstoreWrite_ret ht hreg hid hlive (hsnd ▸ hcall'.live)
    rw [hret, htaken] at hu
    rw [← hsnd] at hlive'
    refine ⟨u, ?_, exec_sound ht hu (by simp) hcall'.live, hcall', hlive', fun hf => ?_⟩
    · rw [List.range_succ, List.map_append, List.map_append]
      exact runAll_snoc hrun hu hcall'.returned
    · have hold := hfile fun h => hf ((exec_steady hu (by simp)).failed h)
      rw [Nat.min_eq_left (by omega)] at hold
      have hspec := congrArg Prod.snd (objstoreWrite_spec ht hreg (hsnd ▸ hcall'.live) (hsnd ▸ hf))
      rw [← hsnd, Files.write_live hid hold, htaken] at hspec
      have hend : m * c + (chunk V c m).length = min ((m + 1) * c) V.length := by omega
      dsimp only at hspec
      rw [hspec, Function.update_self, File.write, ← hend, Tree.write_ofBytes
        (Nat.mod_eq_zero_of_dvd (Dvd.dvd.mul_left hc.1 m)) (by omega) (by omega)
        (hc.straight (Nat.dvd_mul_left c m) (by omega)) (fun _ _ => rfl) fun i hi => bufferOf_chunk hi]
      rfl

/-- A read of one chunk of a file written from front to back. -/
theorem read_chunk (hV : V.length ≤ 16777216) {c' o : Nat} (hc : ChunkSize c') (ho : c' ∣ o)
    (hlt : o < V.length) :
    (File.mk V.length (Tree.ofBytes (bufferOf V) V.length)).read c' o =
      (((min c' (V.length - o) : Nat) : Int), (V.drop o).take c') := by
  have ha : o % 4096 = 0 := Nat.mod_eq_zero_of_dvd (hc.1.trans ho)
  have hmin : min (c' : Int) (V.length - o : Nat) = (min c' (V.length - o) : Nat) := by omega
  rw [File.read_inside rfl hV (Nat.le_of_lt hlt), hmin, Tree.read_ofBytes ha (hc.straight ho (by omega)) (by omega) hV,
    bufferOf_slice, Int.toNat_natCast]

end Put

/-- A value put in chunks into an empty object of any reachable state: every write
returns its chunk's length, and if no block was missing the object has the value's
length and number of blocks, and reads in chunks return the value's bytes. -/
theorem put_get {n : Nat} (hn : n ≤ bitmapSize) {s : State}
    (hs : Reaches (step .uncached) (Fair .uncached) (mount (zeroDisk n)) s) {id : Int} (hid : 2 ≤ id)
    (hlive : LiveSlot s (idToIndex id)) (hsize : (s.obj (idToIndex id)).size = 0) {V : List UInt8}
    (hV : V.length ≤ 16777216) {c : Nat} (hc : ChunkSize c) :
    ∃ t, runAll (step .uncached) (putOps id V c) s =
        some ((List.range ((V.length + c - 1) / c)).map fun m => .val (chunk V c m).length, t) ∧
      (¬ Failed t →
        (∃ u, step .uncached (.stat id) t = some (.stat 0 V.length ((V.length + 4095) / 4096), u)) ∧
        ∀ c' o, ChunkSize c' → c' ∣ o → o < V.length →
          ∃ u, step .uncached (.read id c' o) t =
            some (.data (min c' (V.length - o) : Nat) ((V.drop o).take c'), u)) := by
  have hreach : Reaches (exec .uncached) (Fair .uncached) (mount (zeroDisk n)) s :=
    hs.mono (fun _ _ _ _ h => (step_some.mp h).1) fun _ _ _ h => h
  have hhealthy := (reaches_healthy hn hreach).1
  have hnew : filesOf s (idToIndex id) = some File.new := by
    rw [← empty_file hn hreach (filesOf_live hlive) hsize]
    exact filesOf_live hlive
  obtain ⟨t, hrun, ht, hcall, hlive', hfile⟩ :=
    put_chunks hhealthy.sound hhealthy.calling hid hnew hc hV _ (Nat.le_refl _)
  refine ⟨t, hrun, fun hf => ?_⟩
  have hend := chunks_end (V := V) hc
  have hx := (ht.owned.choose_spec.slot _ hlive').1
  have hfile := hfile hf
  rw [Nat.min_eq_right hend] at hfile
  refine ⟨?_, fun c' o hc' ho hlt => ?_⟩
  · obtain ⟨u, hu⟩ := step_stat_uncached ht hcall hx
    rw [Files.stat_live hid hfile, Tree.blocks_ofBytes _ hV] at hu
    exact ⟨u, hu⟩
  · have hreg : (Op.read id c' o).Regular := by
      refine ⟨?_, hx⟩
      rintro (h | h)
      · exact h (Nat.mod_eq_zero_of_dvd (hc'.1.trans ho))
      · omega
    obtain ⟨u, hu⟩ := step_read_uncached ht hcall hreg
    rw [Files.read_live hid hfile, read_chunk hV hc' ho hlt] at hu
    exact ⟨u, hu⟩

/-- One byte into the only object of a disk with 2192 data blocks. -/
theorem put_get_one_byte : ∃ t,
    runAll (step .uncached) (putOps 177672 [7] 4096) (created keyA (mount (zeroDisk 20000))) = some ([.val 1], t) ∧
    ¬ Failed t ∧
    (∃ u, step .uncached (.stat 177672) t = some (.stat 0 1 1, u)) ∧
    ∃ u, step .uncached (.read 177672 4096 0) t = some (.data 1 [7], u) := by
  have hhash : hash keyA = 177670 := by decide
  have hlive : LiveSlot (created keyA (mount (zeroDisk 20000))) 177670 := hhash ▸ created_live keyA _
  have hsize : ((created keyA (mount (zeroDisk 20000))).obj 177670).size = 0 := by
    rw [← hhash, created_obj]
    rfl
  have hc : ChunkSize 4096 := ⟨by decide, by decide⟩
  obtain ⟨t, hrun, ht⟩ := @put_get 20000 (by decide) _ (created_reaches .uncached (created_fair .uncached 20000 keyA)) 177672
    (by decide) hlive hsize [7] (by decide) 4096 hc
  have hf : ¬ Failed t := by
    have hops : putOps 177672 [7] 4096 = [.write (indexToID (hash keyA)) [7] 0] := by rw [hhash]; rfl
    rw [hops, runAll_cons] at hrun
    obtain ⟨r, u, rs, hq, hrest, -⟩ := hrun
    cases hrest
    exact created_write (by decide) (by decide) (by decide) hq
  exact ⟨t, hrun, hf, (ht hf).1, (ht hf).2 4096 0 hc (by decide) (by decide)⟩

end CS330.ObjStore
