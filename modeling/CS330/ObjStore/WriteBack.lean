import CS330.ObjStore.Mount
import CS330.ObjStore.Sync

/-! The page cache as a write-back cache, evictions included.

`Coherent n M s`: every block with a page has it named after it, the pages from `n` on are
named by the blocks that have them, and what `M` says a block holds is on its page, or on the
disk if it has none or a clean one. Taking a page gives up the one that was on it
(`flush_cache`), and the memory `M` does not notice; `cache_sync` goes through the pages and
raises `n`. The mutexes are not looked at here. -/
namespace CS330.ObjStore

/-- What the blocks hold, as far as it is known. -/
abbrev Memory := Int → Option Block

def OnDisk (s : State) (b : Int) (d : Block) : Prop := 0 ≤ b ∧ b < s.disk.size ∧ s.disk.blocks b = d

structure Coherent (n : Nat) (M : Memory) (s : State) : Prop where
  page : ∀ b, 1 < s.blockBitmap b →
    1 ≤ b ∧ n ≤ s.blockBitmap b ∧ s.blockBitmap b < cachePages ∧ s.cacheBitmap (s.blockBitmap b) = b
  used : ∀ c, n ≤ c → s.cacheBitmap c ≠ 0 → 2 ≤ c ∧ c < cachePages ∧ s.blockBitmap (s.cacheBitmap c) = c
  cached : ∀ b d, M b = some d → 1 < s.blockBitmap b → s.cache (s.blockBitmap b) = d
  disk : ∀ b d, M b = some d → (1 < s.blockBitmap b → s.dirtyFlag (s.blockBitmap b) = false) → OnDisk s b d

/-- The same blocks are in use. -/
def SameUse (s t : State) : Prop := ∀ b, t.blockBitmap b = 0 ↔ s.blockBitmap b = 0

section Coherent
variable {n c : Nat} {M M' : Memory} {b : Int} {s t : State}

theorem SameUse.trans {u : State} (h₁ : SameUse s t) (h₂ : SameUse t u) : SameUse s u :=
  fun b => (h₂ b).trans (h₁ b)

theorem Coherent.page_inj (h : Coherent n M s) {b' : Int} (hb : 1 < s.blockBitmap b)
    (heq : s.blockBitmap b' = s.blockBitmap b) : b' = b := by
  rw [← (h.page b hb).2.2.2, ← heq]
  exact (h.page b' (by omega)).2.2.2.symm

/-! ### Pages that are given up -/

theorem setDisk_onDisk {d : Block} (h : 0 ≤ b) : OnDisk (s.setDisk b d) b d := by
  refine ⟨h, ?_, Function.update_self ..⟩
  show b < ((max s.disk.size (b.toNat + 1) : Nat) : Int)
  omega

theorem GivenUp.onDisk_other {d : Block} (ht : GivenUp c s t) (hb : b ≠ s.cacheBitmap c) (h : OnDisk s b d) :
    OnDisk t b d := by
  have := h.2.1
  have := writtenBack_size c s
  rw [OnDisk, ht.disk]
  exact ⟨h.1, by omega, (writtenBack_other hb).trans h.2.2⟩

theorem GivenUp.onDisk_self {d : Block} (ht : GivenUp c s t) (h : 0 ≤ s.cacheBitmap c)
    (hclean : s.dirtyFlag c = false → OnDisk s (s.cacheBitmap c) d) (hd : s.cache c = d) :
    OnDisk t (s.cacheBitmap c) d := by
  rw [OnDisk, ht.disk]
  cases hdirty : s.dirtyFlag c with
  | false =>
    rw [writtenBack_clean hdirty]
    exact hclean hdirty
  | true =>
    rw [writtenBack_dirty hdirty h, hd]
    exact setDisk_onDisk h

/-- A block loses its page, and what is known of it is on the disk. -/
theorem Coherent.givenUp {m : Nat} (h : Coherent n M s) (hn : n ≤ c) (hc : s.cacheBitmap c ≠ 0) (ht : GivenUp c s t)
    (hm : n ≤ m) (hlow : ∀ c', n ≤ c' → c' ≠ c → m ≤ c') (hgone : ∀ c', m ≤ c' → t.cacheBitmap c' ≠ 0 → c' ≠ c) :
    Coherent m M t ∧ SameUse s t := by
  obtain ⟨h₂, hlt, hpage⟩ := h.used c hn hc
  have hb₁ := (h.page (s.cacheBitmap c) (by omega)).1
  have hself : t.blockBitmap (s.cacheBitmap c) = 1 := by rw [ht.bitmap, Function.update_self]
  have hother : ∀ b, b ≠ s.cacheBitmap c → t.blockBitmap b = s.blockBitmap b := by
    intro b hb
    rw [ht.bitmap, Function.update_of_ne hb]
  -- Another block has another page.
  have hne : ∀ b, b ≠ s.cacheBitmap c → 1 < s.blockBitmap b → s.blockBitmap b ≠ c := by
    intro b hb hused heq
    exact hb (h.page_inj (by omega) (heq.trans hpage.symm))
  have hstill : ∀ b, 1 < t.blockBitmap b → b ≠ s.cacheBitmap c := by
    rintro b hb rfl
    omega
  refine ⟨⟨fun b hb => ?_, fun c' hc' hused => ?_, fun b d hd hb => ?_, fun b d hd hclean => ?_⟩, fun b => ?_⟩
  · have hb' := hstill b hb
    rw [hother b hb'] at hb ⊢
    obtain ⟨h₁, hle, hlt', hself'⟩ := h.page b hb
    have hbc := hne b hb' hb
    exact ⟨h₁, hlow _ hle hbc, hlt', (ht.names _ hbc).trans hself'⟩
  · have hcc := hgone c' hc' hused
    rw [ht.names c' hcc] at hused ⊢
    obtain ⟨h₂', hlt', hpage'⟩ := h.used c' (hm.trans hc') hused
    refine ⟨h₂', hlt', ?_⟩
    rw [hother _ fun heq => hcc ?_, hpage']
    rw [← hpage', heq, hpage]
  · have hb' := hstill b hb
    rw [hother b hb'] at hb ⊢
    rw [ht.cache]
    exact h.cached b d hd hb
  · by_cases hb : b = s.cacheBitmap c
    · subst hb
      refine ht.onDisk_self (by omega) (fun hd' => h.disk _ d hd fun _ => by rw [hpage]; exact hd') ?_
      rw [← h.cached _ d hd (by omega), hpage]
    · refine ht.onDisk_other hb (h.disk b d hd fun hused => ?_)
      rw [hother b hb] at hclean
      rw [← ht.dirty _ (hne b hb hused)]
      exact hclean hused
  · by_cases hb : b = s.cacheBitmap c
    · rw [hb, hself, hpage]
      omega
    · rw [hother b hb]

theorem Coherent.flushCache (h : Coherent 0 M s) (hc : s.cacheBitmap c ≠ 0) :
    Coherent 0 M (flushCache c s) ∧ SameUse s (flushCache c s) := by
  refine h.givenUp (Nat.zero_le c) hc (flushCache_givenUp c s) (Nat.le_refl 0) (fun c' _ _ => Nat.zero_le c')
    fun c' _ hused heq => hused ?_
  rw [heq]
  exact Function.update_self ..

/-! ### Pages that are taken -/

/-- A block without a page gets one that is unused. -/
theorem Coherent.assign {blk : Block} {dirty : Bool} (h : Coherent 0 M s) (hb : 1 ≤ b) (hbit : s.blockBitmap b ≤ 1)
    (h₂ : 2 ≤ c) (hlt : c < cachePages) (hfree : s.cacheBitmap c = 0)
    (htbit : t.blockBitmap = Function.update s.blockBitmap b c)
    (htname : t.cacheBitmap = Function.update s.cacheBitmap c b)
    (htcache : t.cache = Function.update s.cache c blk)
    (htdirty : t.dirtyFlag = Function.update s.dirtyFlag c dirty) (htdisk : t.disk = s.disk)
    (hM : ∀ b', b' ≠ b → M' b' = M b') (hblk : ∀ d, M' b = some d → blk = d)
    (hclean : dirty = false → ∀ d, M' b = some d → OnDisk s b d) : Coherent 0 M' t := by
  -- No other block has this page: it would be named after that one.
  have hne : ∀ b', 1 < s.blockBitmap b' → s.blockBitmap b' ≠ c := by
    intro b' hb' heq
    obtain ⟨h₁, -, -, hname⟩ := h.page b' hb'
    rw [heq, hfree] at hname
    omega
  have hself : t.blockBitmap b = c := by rw [htbit, Function.update_self]
  have hother : ∀ b', b' ≠ b → t.blockBitmap b' = s.blockBitmap b' := by
    intro b' hb'
    rw [htbit, Function.update_of_ne hb']
  have hdisk : ∀ b' d, OnDisk t b' d ↔ OnDisk s b' d := by
    intro b' d
    rw [OnDisk, OnDisk, htdisk]
  refine ⟨fun b' hb' => ?_, fun c' _ hused => ?_, fun b' d hd hb' => ?_, fun b' d hd hcl => ?_⟩
  · by_cases heq : b' = b
    · rw [heq, hself, htname, Function.update_self]
      exact ⟨hb, Nat.zero_le _, hlt, rfl⟩
    · rw [hother b' heq] at hb' ⊢
      rw [htname, Function.update_of_ne (hne b' hb')]
      exact h.page b' hb'
  · by_cases heq : c' = c
    · rw [heq, htname, Function.update_self, hself]
      exact ⟨h₂, hlt, rfl⟩
    · rw [htname, Function.update_of_ne heq] at hused ⊢
      obtain ⟨h₂', hlt', hpage⟩ := h.used c' (Nat.zero_le _) hused
      refine ⟨h₂', hlt', ?_⟩
      rw [hother _ fun heq => ?_, hpage]
      rw [← heq] at hbit
      omega
  · by_cases heq : b' = b
    · rw [heq, hself, htcache, Function.update_self]
      exact hblk d (heq ▸ hd)
    · rw [hother b' heq] at hb' ⊢
      rw [htcache, Function.update_of_ne (hne b' hb')]
      exact h.cached b' d (hM b' heq ▸ hd) hb'
  · rw [hdisk]
    by_cases heq : b' = b
    · subst heq
      rw [hself, htdirty, Function.update_self] at hcl
      exact hclean (hcl h₂) d hd
    · refine h.disk b' d (hM b' heq ▸ hd) fun hb' => ?_
      rw [hother b' heq, htdirty] at hcl
      rw [← hcl hb', Function.update_of_ne (hne b' hb')]

/-- A block is overwritten on its page. -/
theorem Coherent.overwrite (h : Coherent 0 M s) (hb : 1 < s.blockBitmap b) (d : Block) :
    Coherent 0 (Function.update M b (some d))
      ((s.setPage (s.blockBitmap b) d).setDirty (s.blockBitmap b) true) := by
  have hne : ∀ b', b' ≠ b → s.blockBitmap b' ≠ s.blockBitmap b := fun b' hb' heq => hb' (h.page_inj hb heq)
  refine ⟨h.page, h.used, fun b' d' hd hb' => ?_, fun b' d' hd hclean => ?_⟩
  · show Function.update s.cache (s.blockBitmap b) d (s.blockBitmap b') = d'
    by_cases heq : b' = b
    · subst heq
      rw [Function.update_self] at hd ⊢
      exact Option.some.inj hd
    · rw [Function.update_of_ne heq] at hd
      rw [Function.update_of_ne (hne b' heq)]
      exact h.cached b' d' hd hb'
  · have hclean : 1 < s.blockBitmap b' → Function.update s.dirtyFlag (s.blockBitmap b) true (s.blockBitmap b') = false :=
      hclean
    by_cases heq : b' = b
    · subst heq
      rw [Function.update_self] at hclean
      exact absurd (hclean hb) nofun
    · rw [Function.update_of_ne heq] at hd
      rw [Function.update_of_ne (hne b' heq)] at hclean
      exact h.disk b' d' hd hclean

/-- The page handed out is unused, and what the memory says still holds. -/
theorem Coherent.getFreeCachePage (h : Coherent 0 M s) :
    Coherent 0 M (getFreeCachePage s).2 ∧ SameUse s (getFreeCachePage s).2 ∧
      (getFreeCachePage s).2.cacheBitmap (getFreeCachePage s).1 = 0 ∧
      ∀ b, s.blockBitmap b ≤ 1 → (getFreeCachePage s).2.blockBitmap b ≤ 1 := by
  have h' : Coherent 0 M (((s.emit (.lock .cacheBitmapMutex)).emit (.cachePage (nextPage s.lastCacheIndex))).setLast
      (nextPage s.lastCacheIndex)) := ⟨h.page, h.used, h.cached, h.disk⟩
  unfold ObjStore.getFreeCachePage
  dsimp only
  split
  · next hused =>
    obtain ⟨hcoh, hsame⟩ := h'.flushCache hused
    refine ⟨⟨hcoh.page, hcoh.used, hcoh.cached, hcoh.disk⟩, hsame, Function.update_self .., fun b hb => ?_⟩
    refine (congrFun (flushCache_givenUp _ _).bitmap b).trans_le ?_
    rw [Function.update_apply]
    split
    · exact Nat.le_refl 1
    · exact hb
  · next hfree => exact ⟨⟨h'.page, h'.used, h'.cached, h'.disk⟩, fun _ => Iff.rfl, not_not.mp hfree, fun _ hb => hb⟩

/-! ### Reads and writes -/

theorem SameUse.update (hu : s.blockBitmap b ≠ 0) {v : Nat} (hv : v ≠ 0)
    (hbit : t.blockBitmap = Function.update s.blockBitmap b v) : SameUse s t := by
  intro b'
  rw [hbit, Function.update_apply]
  split
  · next heq => rw [heq]; exact iff_of_false hv hu
  · rfl

theorem Coherent.readCached {addr : Nat} (buf : Block) (h : Coherent 0 M s) (hb : 1 ≤ b) (hu : s.blockBitmap b ≠ 0)
    (ha : addr % 4096 = 0) : (readCached .cached b addr buf s).1 = 0 ∧
      (∀ d, M b = some d → (readCached .cached b addr buf s).2.1 = d) ∧
      Coherent 0 M (readCached .cached b addr buf s).2.2 ∧ SameUse s (readCached .cached b addr buf s).2.2 := by
  have h' : Coherent 0 M (s.emit (.bitmap b)) := ⟨h.page, h.used, h.cached, h.disk⟩
  unfold ObjStore.readCached
  dsimp only
  rw [if_neg (show (s.emit (.bitmap b)).blockBitmap b ≠ 0 from hu)]
  split
  · next hone =>
    obtain ⟨hcoh, hsame, hfree, hlow⟩ := h'.getFreeCachePage
    obtain ⟨h₂, hlt⟩ := nextPage_bounds s.lastCacheIndex
    have hlow := hlow b (Nat.le_of_eq hone)
    have hdisk : ∀ d, M b = some d → OnDisk (ObjStore.getFreeCachePage (s.emit (.bitmap b))).2 b d :=
      fun d hd => hcoh.disk b d hd fun hused => absurd hused (Nat.not_lt.mpr hlow)
    -- The disk is what it was after the eviction.
    have hread : ∀ d, M b = some d → (readBlock (newCleanPage b (s.emit (.bitmap b))).2 b addr buf).2 = d := by
      intro d hd
      obtain ⟨h₀, hin, heq⟩ := hdisk d hd
      exact (congrArg Prod.snd (readBlock_inside ha h₀ hin)).trans heq
    exact ⟨rfl, hread, hcoh.assign hb hlow h₂ hlt hfree rfl rfl rfl rfl rfl (fun _ _ => rfl) hread fun _ => hdisk,
      hsame.trans (SameUse.update (mt (hsame b).mp hu) (Nat.ne_zero_of_lt h₂) rfl)⟩
  · next hone =>
    have hmany : 1 < s.blockBitmap b := Nat.lt_of_le_of_ne (Nat.pos_of_ne_zero hu) (Ne.symm hone)
    exact ⟨rfl, fun d hd => h.cached b d hd hmany, h', fun _ => Iff.rfl⟩

theorem Coherent.writeCached {d : Block} (h : Coherent 0 M s) (hb : 1 ≤ b) (hu : s.blockBitmap b ≠ 0) :
    (writeCached .cached b d s).1 = 0 ∧
      Coherent 0 (Function.update M b (some d)) (writeCached .cached b d s).2 ∧
      SameUse s (writeCached .cached b d s).2 := by
  have h' : Coherent 0 M (s.emit (.bitmap b)) := ⟨h.page, h.used, h.cached, h.disk⟩
  unfold ObjStore.writeCached pageFor
  dsimp only
  rw [if_neg (show (s.emit (.bitmap b)).blockBitmap b ≠ 0 from hu)]
  split
  · next hmany => exact ⟨rfl, h'.overwrite hmany d, fun _ => Iff.rfl⟩
  · next hone =>
    obtain ⟨hcoh, hsame, hfree, hlow⟩ := h'.getFreeCachePage
    obtain ⟨h₂, hlt⟩ := nextPage_bounds s.lastCacheIndex
    refine ⟨rfl, hcoh.assign hb (hlow b (Nat.not_lt.mp hone)) h₂ hlt hfree rfl rfl rfl rfl rfl
      (fun b' hne => Function.update_of_ne hne ..) (fun d' hd => ?_) nofun,
      hsame.trans (SameUse.update (mt (hsame b).mp hu) (Nat.ne_zero_of_lt h₂) rfl)⟩
    rw [Function.update_self] at hd
    exact Option.some.inj hd

/-! ### `cache_sync` -/

theorem Coherent.syncPage (h : Coherent n M s) : Coherent (n + 1) M (syncPage n s) ∧ SameUse s (syncPage n s) := by
  have hlow : ∀ c, n ≤ c → c ≠ n → n + 1 ≤ c := fun c => by omega
  by_cases hc : s.cacheBitmap n = 0
  · rw [syncPage_free hc]
    -- No block has this page: it would be named after it.
    refine ⟨⟨fun b hb => ?_, fun c hc => h.used c (by omega), h.cached, h.disk⟩, fun _ => Iff.rfl⟩
    obtain ⟨h₁, hle, hlt, hname⟩ := h.page b hb
    refine ⟨h₁, hlow _ hle fun heq => ?_, hlt, hname⟩
    rw [heq, hc] at hname
    omega
  · exact h.givenUp (Nat.le_refl n) hc (syncPage_givenUp hc) (Nat.le_succ n) hlow fun c hc _ => by omega

theorem Coherent.syncPages (h : Coherent 0 M s) (n : Nat) : Coherent n M (syncPages n s) ∧ SameUse s (syncPages n s) := by
  induction n with
  | zero => exact ⟨h, fun _ => Iff.rfl⟩
  | succ n ih =>
    obtain ⟨hcoh, hsame⟩ := ih.1.syncPage
    exact ⟨hcoh, ih.2.trans hsame⟩

/-- Past the last page no block has one, so what is known of a block is on the disk. -/
theorem Coherent.cacheSync (h : Coherent 0 M s) :
    (∀ b d, M b = some d → OnDisk (cacheSync .cached s) b d) ∧
      ∀ b, s.blockBitmap b ≠ 0 → (cacheSync .cached s).blockBitmap b = 1 := by
  unfold ObjStore.cacheSync
  dsimp only
  obtain ⟨hcoh, hsame⟩ := h.syncPages cachePages
  have hone : ∀ b, (ObjStore.syncPages cachePages s).blockBitmap b ≤ 1 := by
    intro b
    by_contra hb
    obtain ⟨-, hle, hlt, -⟩ := hcoh.page b (Nat.not_le.mp hb)
    omega
  refine ⟨fun b d hd => hcoh.disk b d hd fun hb => absurd hb (Nat.not_lt.mpr (hone b)), fun b hb => ?_⟩
  exact Nat.le_antisymm (hone b) (Nat.pos_of_ne_zero (mt (hsame b).mp hb))

/-! ### Runs -/

/-- A call of `read_cached` or `write_cached`, with its buffer. -/
inductive CacheOp where
  | read (b : Int) (addr : Nat) (buf : Block)
  | write (b : Int) (buf : Block)

/-- The block is marked used, and the buffer of a read is aligned. -/
def CacheOp.Allowed (s : State) : CacheOp → Prop
  | .read b addr _ => 1 ≤ b ∧ s.blockBitmap b ≠ 0 ∧ addr % 4096 = 0
  | .write b _ => 1 ≤ b ∧ s.blockBitmap b ≠ 0

def CacheOp.exec (s : State) : CacheOp → State
  | .read b addr buf => (ObjStore.readCached .cached b addr buf s).2.2
  | .write b buf => (ObjStore.writeCached .cached b buf s).2

def cacheRun (ops : List CacheOp) (s : State) : State := ops.foldl CacheOp.exec s

/-- What the disk holds. A block past its end holds nothing. -/
def Disk.memory (d : Disk) : Memory := fun b => if 0 ≤ b ∧ b < d.size then some (d.blocks b) else none

def CacheOp.apply (M : Memory) : CacheOp → Memory
  | .read _ _ _ => M
  | .write b buf => Function.update M b (some buf)

/-- What was last written to each block, or what it held before. -/
def lastWritten (ops : List CacheOp) (M : Memory) : Memory := ops.foldl CacheOp.apply M

theorem CacheOp.Allowed.congr (h : SameUse s t) {op : CacheOp} (hop : op.Allowed s) : op.Allowed t := by
  cases op with
  | read b addr buf => exact ⟨hop.1, mt (h b).mp hop.2.1, hop.2.2⟩
  | write b buf => exact ⟨hop.1, mt (h b).mp hop.2⟩

theorem Coherent.exec (h : Coherent 0 M s) {op : CacheOp} (hop : op.Allowed s) :
    Coherent 0 (op.apply M) (op.exec s) ∧ SameUse s (op.exec s) := by
  cases op with
  | read b addr buf => exact (h.readCached buf hop.1 hop.2.1 hop.2.2).2.2
  | write b buf => exact (h.writeCached hop.1 hop.2).2

theorem Coherent.cacheRun {ops : List CacheOp} (h : Coherent 0 M s) (hops : ∀ op ∈ ops, op.Allowed s) :
    Coherent 0 (lastWritten ops M) (cacheRun ops s) ∧ SameUse s (cacheRun ops s) := by
  induction ops generalizing M s with
  | nil => exact ⟨h, fun _ => Iff.rfl⟩
  | cons op ops ih =>
    obtain ⟨hcoh, hsame⟩ := h.exec (hops op (List.mem_cons_self ..))
    obtain ⟨hcoh', hsame'⟩ := ih hcoh fun op' hmem => (hops op' (List.mem_cons_of_mem op hmem)).congr hsame
    exact ⟨hcoh', hsame.trans hsame'⟩

/-- A mount finds every block where the disk has it. -/
theorem objstoreInit_coherent (hbit : ∀ b, (objstoreInit s).blockBitmap b ≤ 1) :
    Coherent 0 s.disk.memory (objstoreInit s) where
  page := fun b hb => absurd hb (Nat.not_lt.mpr (hbit b))
  used := fun c _ hc => absurd rfl hc
  cached := fun b d _ hb => absurd hb (Nat.not_lt.mpr (hbit b))
  disk := fun b d hd _ => by
    unfold Disk.memory at hd
    split at hd
    · next hin => exact ⟨hin.1, hin.2, Option.some.inj hd⟩
    · exact absurd hd nofun

end Coherent

end CS330.ObjStore
