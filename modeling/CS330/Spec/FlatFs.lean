import CS330.ObjStore.Objfs
import CS330.Spec.KeyMap
import CS330.Spec.Positions

/-! What the file system is for: a flat directory of files.

A file has a name, a handle that no other file has, and its bytes. A write cuts the file off
where it starts and puts its bytes there. `Flat.Step` says what every call returns and does;
it knows nothing of slots, blocks or pages. -/
namespace CS330.Spec
open ObjStore Objfs Bytes

structure FlatFile where
  handle : Nat
  bytes : List UInt8

abbrev Flat := Key → Option FlatFile

namespace FlatFile

def stat (f : FlatFile) : Stat := ⟨f.handle, f.bytes.length, (f.bytes.length + 4095) / 4096⟩

/-- A read behind the end is refused. -/
def read (f : FlatFile) (size offset : Nat) : Reply :=
  if offset ≤ f.bytes.length then
    .data (min size (f.bytes.length - offset) : Nat) ((f.bytes.drop offset).take size)
  else .data (-EINVAL) []

def write (f : FlatFile) (data : List UInt8) (offset : Nat) : FlatFile :=
  {f with bytes := f.bytes.take offset ++ data}

end FlatFile

namespace Flat

def empty : Flat := fun _ => none

def Handle (F : Flat) (key : Key) (fh : Nat) (f : FlatFile) : Prop := F key = some f ∧ f.handle = fh

/-- No file has the handle. -/
def Fresh (F : Flat) (fh : Nat) : Prop := ∀ key f, ¬ F.Handle key fh f

/-- What a call returns and does. Handles are from 2 to 1000001, and a renamed file gets a new one. -/
def Step (objfs : Defaults) : Call → Flat → Reply → Flat → Prop
  | .getattr key, F, r, F' => F' = F ∧ r =
    if key.bytes = [] then .attr 0 {objfs.dirstat with ino := rootObjid}
    else (F key).elim (.attr (-ENOENT) objfs.fstat) fun f => .attr 0 f.stat
  | .unlink key, F, r, F' => r = .code 0 ∧ F' = Function.update F key none
  | .rename oldkey newkey, F, r, F' => match F oldkey with
    | none => r = .code (-EINVAL) ∧ F' = F
    | some f => r = .code 0 ∧ ∃ fh, 2 ≤ fh ∧ fh < 1000002 ∧ F.Fresh fh ∧
      F' = Function.update (Function.update F oldkey none) newkey (some ⟨fh, f.bytes⟩)
  | .create key, F, r, F' => ∃ fh, 2 ≤ fh ∧ fh < 1000002 ∧ F.Fresh fh ∧ r = .handle 0 (some fh) ∧
    F' = Function.update F key (some ⟨fh, []⟩)
  | .opens key, F, r, F' => F' = F ∧ r =
    (F key).elim (.handle (-ENOENT) none) fun f => .handle 0 (some f.handle)
  | .read fh size offset, F, r, F' => F' = F ∧ (F.Fresh fh → r = .data (-EINVAL) []) ∧
    ∀ key f, F.Handle key fh f → r = f.read size offset
  | .write fh data offset, F, r, F' => (F.Fresh fh → r = .code (-EINVAL) ∧ F' = F) ∧
    ∀ key f, F.Handle key fh f → r = .code data.length ∧ F' = Function.update F key (some (f.write data offset))
  | .release _, F, r, F' => r = .code (-EINVAL) ∧ F' = F
  | .remount, F, r, F' => r = .code 0 ∧ F' = F

/-- What is asked of the caller. Names have at most 31 bytes, and no file is created or renamed
onto an existing one. Reads and writes start on a block boundary and pass a 4 MB boundary only
from one; a write starts inside its file or at its end, and has at least one byte. -/
def Polite : Call → Flat → Prop
  | .getattr key, _ | .unlink key, _ | .opens key, _ => key.bytes.length ≤ 31
  | .rename oldkey newkey, F => oldkey.bytes.length ≤ 31 ∧ newkey.bytes.length ≤ 31 ∧
    (F oldkey ≠ none → F newkey = none)
  | .create key, F => key.bytes.length ≤ 31 ∧ F key = none
  | .read fh size offset, F => fh < 1000002 ∧ size < 2147483648 ∧ offset % 4096 = 0 ∧ offset ≤ 16777216 ∧
    ∀ key f, F.Handle key fh f → Straight offset (min size (f.bytes.length - offset) : Nat)
  | .write fh data offset, F => fh < 1000002 ∧ 1 ≤ data.length ∧ offset % 4096 = 0 ∧
    offset + data.length ≤ 16777216 ∧
    ∀ key f, F.Handle key fh f → offset ≤ f.bytes.length ∧ Straight offset data.length
  | .release _, _ | .remount, _ => True

/-! ### A part of the directory -/

/-- `F` is the part of `G` with the given names. -/
structure Part (names : Set Key) (F G : Flat) : Prop where
  inside : ∀ key, key ∈ names → F key = G key
  outside : ∀ key, key ∉ names → F key = none

/-- A client that keeps to files of its own: it creates them under the given names, looks up,
reads and writes those that it has, and removes none. -/
def Own (names : Set Key) : Call → Flat → Prop
  | .getattr key, F => key.bytes = [] ∨ F key ≠ none
  | .opens key, F => F key ≠ none
  | .create key, _ => key ∈ names
  | .read fh _ _, F | .write fh _ _, F => ∃ key f, F.Handle key fh f
  | .release _, _ => True
  | .unlink _, _ | .rename _ _, _ | .remount, _ => False

/-- No two files have the same handle. -/
def Handles (G : Flat) : Prop := ∀ ⦃key key' fh f f'⦄, G.Handle key fh f → G.Handle key' fh f' → key = key'

section Part
variable {names : Set Key} {F G G' : Flat} {key : Key} {f : FlatFile} {fh : Nat} {objfs : Defaults} {call : Call} {r : Reply}

theorem Part.mem (h : Part names F G) (hf : F key = some f) : key ∈ names := by
  by_contra hkey
  rw [h.outside key hkey] at hf
  cases hf

theorem Part.handle (h : Part names F G) (hf : F.Handle key fh f) : G.Handle key fh f :=
  ⟨(h.inside key (h.mem hf.1)).symm.trans hf.1, hf.2⟩

/-- The file behind a handle of the part. -/
theorem Part.handle_iff (h : Part names F G) (hG : G.Handles) (hfh : ∃ key f, F.Handle key fh f) :
    F.Handle key fh f ↔ G.Handle key fh f := by
  refine ⟨h.handle, fun hf => ?_⟩
  obtain ⟨key', f', hf'⟩ := hfh
  obtain rfl := hG hf (h.handle hf')
  exact ⟨(h.inside key (h.mem hf'.1)).trans hf.1, hf.2⟩

theorem Part.polite (h : Part names F G) (hG : G.Handles) (hown : Own names call F) (hpolite : Polite call F) :
    Polite call G := by
  cases call with
  | create key => exact ⟨hpolite.1, (h.inside key hown).symm.trans hpolite.2⟩
  | read fh size offset =>
    obtain ⟨h₁, h₂, h₃, h₄, hfile⟩ := hpolite
    exact ⟨h₁, h₂, h₃, h₄, fun key f hf => hfile key f ((h.handle_iff hG hown).mpr hf)⟩
  | write fh data offset =>
    obtain ⟨h₁, h₂, h₃, h₄, hfile⟩ := hpolite
    exact ⟨h₁, h₂, h₃, h₄, fun key f hf => hfile key f ((h.handle_iff hG hown).mpr hf)⟩
  | unlink key => exact hown.elim
  | rename oldkey newkey => exact hown.elim
  | remount => exact hown.elim
  | _ => exact hpolite

theorem Part.update (h : Part names F G) (hkey : key ∈ names) (v : Option FlatFile) :
    Part names (Function.update F key v) (Function.update G key v) := by
  refine ⟨fun k hk => ?_, fun k hk => ?_⟩
  · by_cases hkk : k = key
    · rw [hkk, Function.update_self, Function.update_self]
    · rw [Function.update_of_ne hkk, Function.update_of_ne hkk]
      exact h.inside k hk
  · have hkk : k ≠ key := fun hkk => hk (hkk ▸ hkey)
    rw [Function.update_of_ne hkk]
    exact h.outside k hk

/-- What an own call does in the whole directory it does in the part. -/
theorem Part.step (h : Part names F G) (hG : G.Handles) (hown : Own names call F) (hstep : Step objfs call G r G') :
    ∃ F', Step objfs call F r F' ∧ Part names F' G' := by
  cases call with
  | getattr key =>
    obtain ⟨rfl, hr⟩ := hstep
    refine ⟨F, ⟨rfl, hr.trans ?_⟩, h⟩
    split
    · rfl
    · rename_i hroot
      obtain ⟨f, hf⟩ := Option.ne_none_iff_exists'.mp (hown.resolve_left hroot)
      rw [← h.inside key (h.mem hf)]
  | opens key =>
    obtain ⟨rfl, hr⟩ := hstep
    obtain ⟨f, hf⟩ := Option.ne_none_iff_exists'.mp hown
    refine ⟨F, ⟨rfl, ?_⟩, h⟩
    rw [h.inside key (h.mem hf)]
    exact hr
  | create key =>
    obtain ⟨fh, hfh, hlt, hfresh, hr, rfl⟩ := hstep
    exact ⟨_, ⟨fh, hfh, hlt, fun k f hf => hfresh k f (h.handle hf), hr, rfl⟩, h.update hown _⟩
  | read fh size offset =>
    obtain ⟨rfl, -, hfile⟩ := hstep
    obtain ⟨key, f, hf⟩ := hown
    exact ⟨F, ⟨rfl, fun hfresh => absurd hf (hfresh key f), fun k f' hf' => hfile k f' (h.handle hf')⟩, h⟩
  | write fh data offset =>
    obtain ⟨key, f, hf⟩ := hown
    obtain ⟨hr, rfl⟩ := hstep.2 key f (h.handle hf)
    refine ⟨_, ⟨fun hfresh => absurd hf (hfresh key f), fun k f' hf' => ⟨hr, ?_⟩⟩, h.update (h.mem hf.1) _⟩
    obtain rfl := hG (h.handle hf') (h.handle hf)
    obtain rfl := Option.some.inj (hf.1.symm.trans hf'.1)
    rfl
  | release fh =>
    obtain ⟨hr, rfl⟩ := hstep
    exact ⟨F, ⟨hr, rfl⟩, h⟩
  | unlink key => exact hown.elim
  | rename oldkey newkey => exact hown.elim
  | remount => exact hown.elim

/-- Own calls but `create` leave every file its handle. -/
theorem Own.handles {F' : Flat} (hown : Own names call F) (hcreate : ∀ key, call ≠ .create key)
    (hstep : Step objfs call F r F') (hf : F' key = some f) : ∃ f', F key = some f' ∧ f'.handle = f.handle := by
  cases call with
  | getattr k => exact ⟨f, hstep.1 ▸ hf, rfl⟩
  | opens k => exact ⟨f, hstep.1 ▸ hf, rfl⟩
  | create k => exact absurd rfl (hcreate k)
  | read fh size offset => exact ⟨f, hstep.1 ▸ hf, rfl⟩
  | write fh data offset =>
    obtain ⟨k, f', hf'⟩ := hown
    obtain ⟨-, rfl⟩ := hstep.2 k f' hf'
    by_cases hk : key = k
    · rw [hk, Function.update_self] at hf
      cases hf
      exact ⟨f', hk ▸ hf'.1, rfl⟩
    · rw [Function.update_of_ne hk] at hf
      exact ⟨f, hf, rfl⟩
  | release fh => exact ⟨f, hstep.2 ▸ hf, rfl⟩
  | unlink k => exact hown.elim
  | rename oldkey newkey => exact hown.elim
  | remount => exact hown.elim

end Part

end Flat

/-! ### Files without holes -/

/-- The file that holds `V`, from its first byte to its last. -/
def File.ofBytes (V : List UInt8) : File := ⟨V.length, Tree.ofBytes (bufferOf V) V.length⟩

def File.bytes (f : File) : List UInt8 := (List.range f.size.toNat).map f.tree.byteAt

theorem File.bytes_ofBytes {V : List UInt8} (hV : V.length ≤ 16777216) : (ofBytes V).bytes = V := by
  refine List.ext_getElem (by simp [bytes, ofBytes]) fun i hi hi' => ?_
  simp only [bytes, ofBytes, List.getElem_map, List.getElem_range]
  rw [Tree.ofBytes_byteAt hV hi', bufferOf, List.getD_eq_getElem?_getD, List.getElem?_eq_getElem hi']
  rfl

theorem File.ofBytes_nil : ofBytes [] = File.new := by
  unfold ofBytes File.new
  rw [List.length_nil, Tree.ofBytes_zero]
  rfl

/-- What lies behind the start of a write does not matter to it. -/
theorem Tree.write_cut {V buf : Buffer} {a m n : Nat} (ha : a % 4096 = 0) (ham : a ≤ m) (hm : m ≤ 16777216) :
    (ofBytes V m).write buf n a = (ofBytes V a).write buf n a := by
  have hpage : ∀ p, p + 4096 ≤ a → (padded V m).page p = (padded V a).page p := by
    intro p hp
    funext i
    have := i.isLt
    simp only [Buffer.page, padded]
    rw [if_pos (by omega), if_pos (by omega)]
  have hentry : ∀ j k, k < 1024 → j * 4194304 + k * 4096 < a → (ofBytes V m).entry j k = (ofBytes V a).entry j k := by
    intro j k hk h
    rw [ofBytes_entry, ofBytes_entry, if_pos (by omega), if_pos (by omega), hpage _ (by omega)]
  funext j
  unfold write
  rw [firstOf_eq, entryOf_eq]
  dsimp only
  split
  · rw [ofBytes_some V (by omega), ofBytes_some V (by omega)]
    congr 1
    funext k
    by_cases hk : k < 1024
    · rw [if_pos (by omega), if_pos (by omega), hpage _ (by omega)]
    · rw [if_neg (by omega), if_neg (by omega)]
  · split
    · rfl
    · congr 1
      funext k
      split
      · rename_i hk
        unfold startAt at hk
        split at hk
        · exact hentry j k (by omega) (by omega)
        · omega
      · rfl

/-- A write inside a file without holes or at its end. -/
theorem File.write_ofBytes {V B : List UInt8} {offset : Nat} (ha : offset % 4096 = 0) (hoff : offset ≤ V.length)
    (hV : V.length ≤ 16777216) (hB : 1 ≤ B.length) (hend : offset + B.length ≤ 16777216)
    (hs : Straight offset B.length) :
    (ofBytes V).write (bufferOf B) B.length offset = ofBytes (V.take offset ++ B) := by
  have hlen : (V.take offset ++ B).length = offset + B.length := by
    rw [List.length_append, List.length_take]
    omega
  unfold File.write ofBytes
  rw [hlen, Tree.write_cut ha hoff hV, Tree.write_ofBytes (W := bufferOf (V.take offset ++ B)) ha hB hend hs]
  · rfl
  · intro i hi
    simp only [bufferOf, List.getD_eq_getElem?_getD]
    rw [List.getElem?_append_left (by rw [List.length_take]; omega), List.getElem?_take_of_lt hi]
  · intro i _
    simp only [bufferOf, List.getD_eq_getElem?_getD]
    rw [List.getElem?_append_right (by rw [List.length_take]; omega), List.length_take]
    congr 2
    omega

/-- A read of a file without holes. -/
theorem File.read_ofBytes {V : List UInt8} {size offset : Nat} (ha : offset % 4096 = 0) (hoff : offset ≤ V.length)
    (hV : V.length ≤ 16777216) (hs : Straight offset (min size (V.length - offset) : Nat)) :
    (ofBytes V).read size offset = (((min size (V.length - offset) : Nat) : Int), (V.drop offset).take size) := by
  have hmin : min (size : Int) (V.length - offset : Nat) = (min size (V.length - offset) : Nat) := by omega
  rw [File.read_inside rfl hV hoff, hmin]
  unfold ofBytes
  rw [Tree.read_ofBytes ha hs (by omega) hV, bufferOf_slice, Int.toNat_natCast]

/-! ### The store as a flat directory -/

namespace Store

/-- A name's file, and its id for a handle. -/
def flat (S : Store) : Flat := fun key =>
  (S.names.holder key).bind fun x => (S.files x).map fun f => ⟨(indexToID x).toNat, f.bytes⟩

/-- Names stand in one slot each, and the slots with a name are those with a file. No file has
holes. -/
structure Whole (S : Store) : Prop where
  single : S.names.Single
  named : ∀ x, S.names x = none ↔ S.files x = none
  bytes : ∀ x f, S.files x = some f → ∃ V, V.length ≤ 16777216 ∧ f = File.ofBytes V

theorem toNat_indexToID (x : Nat) : (indexToID x).toNat = x + 2 := by
  unfold indexToID
  omega

section Whole
variable {S : Store} {key oldkey newkey : Key} {x z fh : Nat} {V : List UInt8} {g : FlatFile} (h : S.Whole)
include h

theorem Whole.file (hx : S.names x = some key) : ∃ V, V.length ≤ 16777216 ∧ S.files x = some (File.ofBytes V) := by
  obtain ⟨f, hf⟩ := Option.ne_none_iff_exists'.mp (mt (h.named x).mpr (by simp [hx]))
  obtain ⟨V, hV, rfl⟩ := h.bytes x f hf
  exact ⟨V, hV, hf⟩

theorem Whole.flat_slot (hx : S.names x = some key) (hf : S.files x = some (File.ofBytes V))
    (hV : V.length ≤ 16777216) : S.flat key = some ⟨x + 2, V⟩ := by
  rw [flat, h.single.holder_eq_some.mpr hx, Option.bind_some, hf, Option.map_some, toNat_indexToID,
    File.bytes_ofBytes hV]

theorem Whole.flat_eq_none : S.flat key = none ↔ ∀ x, S.names x ≠ some key := by
  constructor
  · intro hnone x hx
    obtain ⟨V, hV, hf⟩ := h.file hx
    rw [h.flat_slot hx hf hV] at hnone
    cases hnone
  · intro habsent
    rw [flat, h.single.holder_eq_none.mpr habsent, Option.bind_none]

theorem Whole.flat_eq_some (hg : S.flat key = some g) : ∃ x, S.names x = some key ∧ g.handle = x + 2 ∧
    g.bytes.length ≤ 16777216 ∧ S.files x = some (File.ofBytes g.bytes) := by
  obtain ⟨x, hx⟩ : ∃ x, S.names x = some key := by
    by_contra habsent
    rw [h.flat_eq_none.mpr (not_exists.mp habsent)] at hg
    cases hg
  obtain ⟨V, hV, hf⟩ := h.file hx
  rw [h.flat_slot hx hf hV] at hg
  cases hg
  exact ⟨x, hx, rfl, hV, hf⟩

/-- A handle of no file names a free slot. -/
theorem Whole.lookup_fresh (hfresh : S.flat.Fresh fh) : S.files.lookup fh = none := by
  cases hf : S.files.lookup fh with
  | none => rfl
  | some f =>
    obtain ⟨hid, hslot⟩ := Files.lookup_eq_some.mp hf
    obtain ⟨V, hV, rfl⟩ := h.bytes _ f hslot
    obtain ⟨key, hkey⟩ := Option.ne_none_iff_exists'.mp (mt (h.named (idToIndex fh)).mp (by simp [hslot]))
    refine absurd ⟨h.flat_slot hkey hslot hV, ?_⟩ (hfresh key ⟨idToIndex fh + 2, V⟩)
    show idToIndex fh + 2 = fh
    unfold idToIndex
    omega

theorem Whole.lookup_handle (hg : S.flat.Handle key fh g) : S.names (idToIndex fh) = some key ∧
    g.bytes.length ≤ 16777216 ∧ S.files.lookup fh = some (File.ofBytes g.bytes) := by
  obtain ⟨hg, rfl⟩ := hg
  obtain ⟨x, hx, hh, hV, hf⟩ := h.flat_eq_some hg
  have hslot : idToIndex (g.handle : Nat) = x := by
    unfold idToIndex
    omega
  exact ⟨by rwa [hslot], hV, Files.lookup_eq_some.mpr ⟨by omega, by rwa [hslot]⟩⟩

theorem Whole.handles : S.flat.Handles := by
  intro key key' fh f f' hf hf'
  exact Option.some.inj ((h.lookup_handle hf).1.symm.trans (h.lookup_handle hf').1)

/-- The slot of a name that is not there yet. -/
theorem Whole.fresh (hfree : S.names x = none) : S.flat.Fresh (x + 2) := by
  rintro key g ⟨hg, hh⟩
  obtain ⟨y, hy, hgy, -⟩ := h.flat_eq_some hg
  obtain rfl : y = x := by omega
  rw [hfree] at hy
  cases hy

theorem Whole.put (hx : x < 1000000) (hfree : S.names x = none) (habsent : S.flat key = none)
    (hV : V.length ≤ 16777216) :
    Whole ⟨Function.update S.files x (some (File.ofBytes V)), Function.update S.names x (some key)⟩ ∧
      flat ⟨Function.update S.files x (some (File.ofBytes V)), Function.update S.names x (some key)⟩ =
        Function.update S.flat key (some ⟨x + 2, V⟩) := by
  have habsent := h.flat_eq_none.mp habsent
  have hwhole : Whole ⟨Function.update S.files x (some (File.ofBytes V)), Function.update S.names x (some key)⟩ := by
    refine ⟨h.single.put hx habsent, fun y => ?_, fun y f hf => ?_⟩
    · by_cases hy : y = x
      · subst hy
        simp
      · simp only [Function.update_of_ne hy]
        exact h.named y
    · dsimp only at hf
      by_cases hy : y = x
      · rw [hy, Function.update_self] at hf
        cases hf
        exact ⟨V, hV, rfl⟩
      · rw [Function.update_of_ne hy] at hf
        exact h.bytes y f hf
  refine ⟨hwhole, funext fun k => ?_⟩
  by_cases hk : k = key
  · subst hk
    rw [Function.update_self]
    exact hwhole.flat_slot (Function.update_self ..) (Function.update_self ..) hV
  · rw [Function.update_of_ne hk]
    unfold flat
    dsimp only
    rw [h.single.holder_put hx hfree habsent, Function.update_of_ne hk]
    cases hz : S.names.holder k with
    | none => rfl
    | some z =>
      have hzx : z ≠ x := by
        rintro rfl
        rw [h.single.holder_eq_some, hfree] at hz
        cases hz
      rw [Option.bind_some, Option.bind_some, Function.update_of_ne hzx]

theorem Whole.drop (hz : S.names z = some key) : (S.drop z).Whole ∧ (S.drop z).flat = Function.update S.flat key none := by
  have hwhole : (S.drop z).Whole := by
    refine ⟨h.single.drop z, fun y => ?_, fun y f hf => ?_⟩
    · by_cases hy : y = z
      · simp [Store.drop, hy]
      · simp only [Store.drop, Function.update_of_ne hy]
        exact h.named y
    · simp only [Store.drop] at hf
      by_cases hy : y = z
      · simp [hy] at hf
      · rw [Function.update_of_ne hy] at hf
        exact h.bytes y f hf
  refine ⟨hwhole, funext fun k => ?_⟩
  unfold flat Store.drop
  dsimp only
  rw [h.single.holder_drop hz]
  by_cases hk : k = key
  · rw [hk, Function.update_self, Function.update_self]
    rfl
  · rw [Function.update_of_ne hk, Function.update_of_ne hk]
    cases hy : S.names.holder k with
    | none => rfl
    | some y =>
      have hyz : y ≠ z := by
        rintro rfl
        rw [h.single.holder_eq_some, hz] at hy
        exact hk (Option.some.inj hy).symm
      rw [Option.bind_some, Option.bind_some, Function.update_of_ne hyz]

/-- New bytes for a file that is there. -/
theorem Whole.replace (hx : S.names x = some key) (hV : V.length ≤ 16777216) :
    Whole {S with files := Function.update S.files x (some (File.ofBytes V))} ∧
      flat {S with files := Function.update S.files x (some (File.ofBytes V))} =
        Function.update S.flat key (some ⟨x + 2, V⟩) := by
  have hwhole : Whole {S with files := Function.update S.files x (some (File.ofBytes V))} := by
    refine ⟨h.single, fun y => ?_, fun y f hf => ?_⟩
    · by_cases hy : y = x
      · simp [hy, hx]
      · simp only [Function.update_of_ne hy]
        exact h.named y
    · dsimp only at hf
      by_cases hy : y = x
      · rw [hy, Function.update_self] at hf
        cases hf
        exact ⟨V, hV, rfl⟩
      · rw [Function.update_of_ne hy] at hf
        exact h.bytes y f hf
  refine ⟨hwhole, funext fun k => ?_⟩
  by_cases hk : k = key
  · subst hk
    rw [Function.update_self]
    exact hwhole.flat_slot hx (Function.update_self ..) hV
  · rw [Function.update_of_ne hk]
    unfold flat
    dsimp only
    cases hz : S.names.holder k with
    | none => rfl
    | some z =>
      have hzx : z ≠ x := by
        rintro rfl
        rw [h.single.holder_eq_some, hx] at hz
        exact hk (Option.some.inj hz).symm
      rw [Option.bind_some, Option.bind_some, Function.update_of_ne hzx]

/-! ### The calls -/

theorem Whole.create_step {r : Ret} {S' : Store} (habsent : S.flat key = none)
    (hstep : S.step (.create key) = some (r, S')) : ∃ x, x < 1000000 ∧ r = .val (indexToID x) ∧
      S.flat.Fresh (x + 2) ∧ S'.Whole ∧ S'.flat = Function.update S.flat key (some ⟨x + 2, []⟩) := by
  obtain ⟨x, hx, hput⟩ := Option.map_eq_some_iff.mp hstep
  obtain ⟨hlt, hcell, -⟩ := Names.place_eq_some.mp hx
  have hfree := hcell.resolve_right (h.flat_eq_none.mp habsent x)
  simp only [Store.put, if_pos hfree, Prod.mk.injEq] at hput
  obtain ⟨rfl, rfl⟩ := hput
  have hnew := h.put hlt hfree habsent (V := []) (Nat.zero_le _)
  rw [File.ofBytes_nil] at hnew
  exact ⟨x, hlt, rfl, h.fresh hfree, hnew⟩

theorem Whole.destroy_step {r : Ret} {S' : Store} (hstep : S.step (.destroy key) = some (r, S')) :
    S'.Whole ∧ S'.flat = Function.update S.flat key none := by
  simp only [Store.step] at hstep
  cases hz : S.names.holder key with
  | none =>
    rw [hz] at hstep
    cases hstep
    refine ⟨h, (Function.update_eq_self_iff.mpr ?_).symm⟩
    exact (h.flat_eq_none.mpr (h.single.holder_eq_none.mp hz)).symm
  | some z =>
    rw [hz] at hstep
    cases hstep
    exact h.drop (h.single.holder_eq_some.mp hz)

theorem Whole.rename_step {r : Ret} {S' : Store} (hpolite : S.flat oldkey ≠ none → S.flat newkey = none)
    (hstep : S.step (.rename oldkey newkey) = some (r, S')) :
    (S.flat oldkey = none ∧ r = .val (-1) ∧ S' = S) ∨
      ∃ f x, S.flat oldkey = some f ∧ x < 1000000 ∧ r = .val (indexToID x) ∧ S.flat.Fresh (x + 2) ∧ S'.Whole ∧
        S'.flat = Function.update (Function.update S.flat oldkey none) newkey (some ⟨x + 2, f.bytes⟩) := by
  simp only [Store.step] at hstep
  cases hz : S.names.holder oldkey with
  | none =>
    rw [hz] at hstep
    cases hstep
    exact .inl ⟨h.flat_eq_none.mpr (h.single.holder_eq_none.mp hz), rfl, rfl⟩
  | some z =>
    rw [hz] at hstep
    have hzname := h.single.holder_eq_some.mp hz
    obtain ⟨V, hV, hf⟩ := h.file hzname
    have hold := h.flat_slot hzname hf hV
    have habsent := hpolite (by simp [hold])
    obtain ⟨x, hx, hput⟩ := Option.map_eq_some_iff.mp hstep
    obtain ⟨hlt, hcell, -⟩ := Names.place_eq_some.mp hx
    have hfree := hcell.resolve_right (h.flat_eq_none.mp habsent x)
    simp only [Store.put, if_pos hfree, hf, Prod.mk.injEq] at hput
    obtain ⟨rfl, rfl⟩ := hput
    have hne : oldkey ≠ newkey := fun heq => by
      rw [heq, habsent] at hold
      cases hold
    have hzx : z ≠ x := fun heq => by
      rw [heq, hfree] at hzname
      cases hzname
    obtain ⟨hwhole, hflat⟩ := h.put hlt hfree habsent hV
    have hkept : Function.update S.names x (some newkey) z = some oldkey := by
      rw [Function.update_of_ne hzx]
      exact hzname
    obtain ⟨hwhole', hflat'⟩ := hwhole.drop hkept
    refine .inr ⟨⟨z + 2, V⟩, x, hold, hlt, rfl, h.fresh hfree, hwhole', ?_⟩
    rw [hflat', hflat, Function.update_comm hne]

theorem Whole.read_fresh (hfresh : S.flat.Fresh fh) (size : Int) (offset : Nat) :
    S.files.read fh size offset = .data (-1) [] := by
  rw [Files.read, h.lookup_fresh hfresh]

theorem Whole.read_handle {size offset : Nat} (hg : S.flat.Handle key fh g) (ha : offset % 4096 = 0)
    (hoff : offset ≤ g.bytes.length) (hs : Straight offset (min size (g.bytes.length - offset) : Nat)) :
    S.files.read fh size offset =
      .data (min size (g.bytes.length - offset) : Nat) ((g.bytes.drop offset).take size) := by
  obtain ⟨-, hV, hf⟩ := h.lookup_handle hg
  rw [Files.read, hf]
  dsimp only
  rw [File.read_ofBytes ha hoff hV hs]

/-- A read behind the end comes out with a negative size. -/
theorem Whole.read_behind {size offset : Nat} (hg : S.flat.Handle key fh g) (hoff : g.bytes.length < offset)
    (hle : offset ≤ 16777216) : ∃ v, S.files.read fh size offset = .data v [] ∧ int32 v < 0 := by
  obtain ⟨-, hV, hf⟩ := h.lookup_handle hg
  have hclip : ((File.ofBytes g.bytes).size - offset : Int) < size := by
    show ((g.bytes.length : Int) - offset) < size
    omega
  have hneg : int32 ((File.ofBytes g.bytes).size - offset) = (g.bytes.length : Int) - offset :=
    int32_eq (by show (-2147483648 : Int) ≤ g.bytes.length - offset; omega)
      (by show (g.bytes.length : Int) - offset < 2147483648; omega)
  refine ⟨(g.bytes.length : Int) - offset, ?_, by rw [int32_eq (by omega) (by omega)]; omega⟩
  rw [Files.read, hf]
  dsimp only
  rw [File.read, if_pos hclip, hneg, Tree.readAt, startBlock_small hle]
  dsimp only
  rw [Tree.read, Int.toNat_of_nonpos (by omega)]
  rfl

theorem Whole.stat_handle (hg : S.flat.Handle key fh g) :
    S.files.stat fh = .stat 0 g.bytes.length ((g.bytes.length + 4095) / 4096) := by
  obtain ⟨-, hV, hf⟩ := h.lookup_handle hg
  rw [Files.stat, hf]
  dsimp only
  rw [File.ofBytes, Tree.blocks_ofBytes _ hV]

theorem Whole.write_fresh (hfresh : S.flat.Fresh fh) (data : List UInt8) (offset : Nat) :
    S.files.write fh data offset = (.val (-1), S.files) := by
  rw [Files.write, h.lookup_fresh hfresh]

theorem Whole.write_handle {data : List UInt8} {offset : Nat} (hg : S.flat.Handle key fh g)
    (ha : offset % 4096 = 0) (hoff : offset ≤ g.bytes.length) (hdata : 1 ≤ data.length)
    (hend : offset + data.length ≤ 16777216) (hs : Straight offset data.length) :
    (S.files.write fh data offset).1 = .val data.length ∧
      Whole {S with files := (S.files.write fh data offset).2} ∧
      flat {S with files := (S.files.write fh data offset).2} =
        Function.update S.flat key (some (g.write data offset)) := by
  obtain ⟨hname, hV, hf⟩ := h.lookup_handle hg
  have htaken : Files.taken data offset = data.length := by
    rw [Files.taken_eq (by omega) (by omega)]
    omega
  have hlen : (g.bytes.take offset ++ data).length ≤ 16777216 := by
    rw [List.length_append, List.length_take]
    omega
  have hslot : idToIndex fh + 2 = g.handle := by
    rw [hg.2]
    have := (Files.lookup_eq_some.mp hf).1
    unfold idToIndex
    omega
  rw [Files.write, hf]
  dsimp only
  rw [htaken, File.write_ofBytes ha hoff hV hdata hend hs]
  obtain ⟨hwhole, hflat⟩ := h.replace hname hlen
  refine ⟨rfl, hwhole, ?_⟩
  rw [hflat, hslot]
  rfl

end Whole

end Store

end CS330.Spec
