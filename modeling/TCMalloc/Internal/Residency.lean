import TCMalloc.Internal.Pagemap

/-!
`ResidencyPageMap::Get` (residency.cc): how many bytes of an object are resident and how
many swapped, from the pagemap entries of the pages it lies on.  The first page is read
with `ReadOne` and charged the bytes of the object on it, the whole pages after it with
`ReadMany`, and the last page with `ReadOne` again.  Each byte is charged once, to its own
page: `get` returns `spread` of the present and of the swapped bit.
-/

set_option autoImplicit false
set_option relaxedAutoImplicit false

namespace TCMalloc.Internal.Residency

open TCMalloc.Lib.PageSpan TCMalloc.Internal.Pagemap

/-- `PM_SWAP`: bit 62 of a pagemap entry. -/
def pmSwap : UInt64 := (1 : UInt64) <<< 62

/-- `PM_PRESENT`: bit 63 of a pagemap entry. -/
def pmPresent : UInt64 := (1 : UInt64) <<< 63

def pageSwapped (flags : UInt64) : Bool := flags &&& pmSwap == pmSwap

def pagePresent (flags : UInt64) : Bool := flags &&& pmPresent == pmPresent

/-- `Residency::Info`. -/
structure Info where
  bytesResident : Nat := 0
  bytesSwapped : Nat := 0
deriving DecidableEq, Repr

/-- `Update(input, size, info)`: charge `size` bytes to what the entry says of its page. -/
def update (input : UInt64) (size : Nat) (info : Info) : Info where
  bytesResident := if pagePresent input then info.bytesResident + size else info.bytesResident
  bytesSwapped := if pageSwapped input then info.bytesSwapped + size else info.bytesSwapped

/-- `ResidencyPageMap::ReadMany`: `Update` every entry read with a whole page. -/
def readMany (file : List UInt64) (P pos : Nat) (numPages : Int) (info : Info) :
    Option (Nat × Info) :=
  readBatches file (fun e info => some (update e P info)) pos numPages info

/-- `ResidencyPageMap::Get` from `Seek(basePage)` on, for an object that meets
`remainingPages` pages from `basePage` to `endPage`. -/
def getPages (file : List UInt64) (P uaddr size basePage endPage : Nat) (remainingPages : Int) :
    Option Info :=
  if remainingPages = 1 then
    (readOne file (seek P basePage)).map fun r => update r.1 size {}
  else
    match readOne file (seek P basePage) with
    | none => none
    | some (first, pos) =>
      -- `firstPageSize = kHardwarePageSize - (uaddr - basePage)`; `ReadMany` gets
      -- `remainingPages - 1` after the decrement
      match readMany file P pos (remainingPages - 1 - 1) (update first (sub64 P (sub64 uaddr basePage)) {}) with
      | none => none
      | some (pos, info) =>
        -- `lastPageSize = kHardwarePageSize - (endPage - uaddr - size)`
        (readOne file pos).map fun r => update r.1 (sub64 P (sub64 (sub64 endPage uaddr) size)) info

/-- `ResidencyPageMap::Get(addr, size)` with the page size `P`, on the pagemap `file`
(`none` when it could not be opened, `fd_ < 0`). -/
def get (file : Option (List UInt64)) (P uaddr size : Nat) : Option Info :=
  match file with
  | none => none
  | some file =>
    if size = 0 then some {} else
    getPages file P uaddr size (basePage P uaddr) (endPage P uaddr size)
      (sub64 (endPage P uaddr size) (basePage P uaddr) / P : Nat)

/-- Page `p` is present, as a count. -/
def presentAt (file : List UInt64) (p : Nat) : Nat := (pagePresent (entry file p)).toNat

/-- Page `p` is swapped, as a count. -/
def swappedAt (file : List UInt64) (p : Nat) : Nat := (pageSwapped (entry file p)).toNat

theorem update_eq (input : UInt64) (size : Nat) (info : Info) :
    update input size info =
      ⟨info.bytesResident + size * (pagePresent input).toNat,
        info.bytesSwapped + size * (pageSwapped input).toNat⟩ := by
  unfold update
  cases pagePresent input <;> cases pageSwapped input <;> simp

theorem foldl_update (P : Nat) :
    ∀ (l : List UInt64) (info : Info), l.foldl (fun info e => update e P info) info =
      ⟨info.bytesResident + (l.map fun e => P * (pagePresent e).toNat).sum,
        info.bytesSwapped + (l.map fun e => P * (pageSwapped e).toNat).sum⟩
  | [], info => by simp
  | e :: l, info => by
    rw [List.foldl_cons, foldl_update P l, update_eq]
    simp only [List.map_cons, List.sum_cons, Nat.add_assoc]

theorem readMany_eq {file : List UInt64} {P pos n : Nat} (info : Info)
    (hlen : pos + n ≤ file.length) :
    readMany file P pos n info =
      some (pos + n, ⟨info.bytesResident + ∑ p ∈ Finset.Ico pos (pos + n), P * presentAt file p,
        info.bytesSwapped + ∑ p ∈ Finset.Ico pos (pos + n), P * swappedAt file p⟩) := by
  have hn : (n : Int).toNat = n := Int.toNat_natCast n
  unfold readMany
  rw [readBatches_eq (by rwa [hn]), hn, foldlM_some (fun e info => update e P info),
    foldl_update, sum_map_take_drop file _ pos n hlen, sum_map_take_drop file _ pos n hlen]
  simp only [Option.map_some, presentAt, swappedAt]

theorem get_eq {file : List UInt64} {k a s : Nat} (hs : 0 < s) (hfit : a + s + 2 ^ k < 2 ^ 64)
    (hfile : (a + s + 2 ^ k - 1) / 2 ^ k ≤ file.length) :
    get (some file) (2 ^ k) a s =
      some ⟨spread (2 ^ k) a s (presentAt file), spread (2 ^ k) a s (swappedAt file)⟩ := by
  have hp := pages_of_fit hs hfit
  obtain ⟨b, hb⟩ : ∃ b, b = a / 2 ^ k := ⟨_, rfl⟩
  obtain ⟨e, he⟩ : ∃ e, e = (a + s + 2 ^ k - 1) / 2 ^ k := ⟨_, rfl⟩
  rw [← hb, ← he] at hp
  rw [← he] at hfile
  clear hfit hb he
  have hbe := hp.first_lt
  rw [get, if_neg (Nat.pos_iff_ne_zero.mp hs), hp.remaining, getPages, hp.seek_base,
    readOne_of_lt (show b < file.length by omega)]
  rcases eq_or_ne e (b + 1) with hone | hone
  · -- one page: it holds the whole object
    rw [if_pos (show ((e - b : Nat) : Int) = 1 by rw [hone, Nat.add_sub_cancel_left]; rfl),
      Option.map_some, update_eq]
    have hw : ∀ w : Nat → Nat, spread (2 ^ k) a s w = s * w b := fun w =>
      hp.spread_eq_const hs fun p hp => by
        rw [Finset.mem_Ico] at hp
        rw [show p = b by omega]
    simp [hw, presentAt, swappedAt]
  · -- the first page in part, the pages up to the last one whole, the last one in part
    rw [if_neg (show ((e - b : Nat) : Int) ≠ 1 by omega)]
    dsimp only
    rw [hp.firstPageSize, show ((e - b : Nat) : Int) - 1 - 1 = ((e - 1 - (b + 1) : Nat) : Int) by omega,
      readMany_eq _ (show b + 1 + (e - 1 - (b + 1)) ≤ file.length by omega),
      show b + 1 + (e - 1 - (b + 1)) = e - 1 by omega]
    dsimp only
    rw [readOne_of_lt (show e - 1 < file.length by omega), Option.map_some, hp.lastPageSize,
      update_eq, update_eq]
    have hsplit : ∀ w : Nat → Nat, spread (2 ^ k) a s w = (b * 2 ^ k + 2 ^ k - a) * w b +
        ∑ p ∈ Finset.Ico (b + 1) (e - 1), 2 ^ k * w p + (a + s + 2 ^ k - e * 2 ^ k) * w (e - 1) := by
      intro w
      rw [hp.spread_eq_head hs (m := b + 1) (by omega) (by omega), Nat.succ_mul]
      intro p hp
      rw [Finset.mem_Ico] at hp
      rw [show p = b by omega]
    rw [hsplit, hsplit]
    simp only [presentAt, swappedAt, Nat.zero_add]

end TCMalloc.Internal.Residency
