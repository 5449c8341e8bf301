import CS330.Gem5.Tlb

/-! Cached pages in the order of their last use.

The page used last stands first. A full cache gives up the page at the end, which was used the
longest time ago. -/
namespace CS330.Gem5

/-- The 4 KB page an address lies in. -/
def pageOf (va : BitVec 64) : BitVec 64 := va &&& TopBits.mask 64 52

namespace LruPages

def find (vpn : BitVec 64) (pages : List Page) : Option Page := pages.find? fun page => page.vaddr == vpn

def without (vpn : BitVec 64) (pages : List Page) : List Page := pages.filter fun page => page.vaddr != vpn

def insert (size : Nat) (vpn : BitVec 64) (entry : Page) (pages : List Page) : Page × List Page :=
  match find vpn pages with
  | some page => (page, pages)
  | none =>
    let page := {entry with vaddr := vpn}
    (page, page :: if pages.length = size then pages.dropLast else pages)

def lookup (va : BitVec 64) (update : Bool) (pages : List Page) : Option Page × List Page :=
  match find (pageOf va) pages with
  | none => (none, pages)
  | some page => (some page, if update then page :: without (pageOf va) pages else pages)

def step (size : Nat) : Tlb.Op → List Page → Tlb.Reply × List Page
  | .insert vpn entry, pages => let r := insert size vpn entry pages; (.entry (some r.1), r.2)
  | .lookup va update, pages => let r := lookup va update pages; (.entry r.1, r.2)
  | .demapPage va, pages => (.done, without (pageOf va) pages)
  | .flushAll, _ => (.done, [])
  | .flushNonGlobal, pages => (.done, pages.filter fun page => page.global)

end LruPages

end CS330.Gem5
