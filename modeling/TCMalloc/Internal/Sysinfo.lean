import Mathlib.Order.Interval.Finset.Nat
import TCMalloc.Lib.While

/-!
`ParseCpulist` of `sysinfo.cc`: parsing a CPU list such as `0-3,8,10-11` read
through a `read` function in chunks of any size, with a 16-byte buffer whose
unparsed tail is carried over to the next pass.

`read` is a function of its own state: given `count`, it fails (`rc < 0`) or
returns the bytes it wrote at `buf + carry_over`.  A pass whose bytes would end past
`buf` is `none`, as is running out of fuel: a run that returns `some` stayed inside
the buffer and ended.  `find` answers `npos` as the length of the text, which keeps
its comparisons and `substr(0, npos)`.  A `CpuSet` is the finite set of its CPUs.

`absl::SimpleAtoi` is Abseil's, not part of these sources: the parse takes it as a
function `atoi`, and the proofs use only what its documentation says of a decimal
numeral, `SimpleAtoiSpec`.  `simpleAtoi` is one function that meets it.
-/

set_option autoImplicit false
set_option relaxedAutoImplicit false

namespace TCMalloc.Internal.Sysinfo

open TCMalloc.Lib

/-- `kMaxCpus`. -/
def kMaxCpus : Nat := 2048

/-- `buf.size()`. -/
def bufSize : Nat := 16

/-- `IsInBounds(cpu)`. -/
def isInBounds (cpu : Int) : Bool := 0 ≤ cpu && cpu < kMaxCpus

/-- `absl::ascii_isspace`. -/
def asciiIsSpace (c : Char) : Bool :=
  c == ' ' || c == '\t' || c == '\n' || c == '\x0b' || c == '\x0c' || c == '\r'

/-- The text without the ASCII whitespace at either end. -/
def stripAsciiSpace (s : List Char) : List Char :=
  ((s.dropWhile asciiIsSpace).reverse.dropWhile asciiIsSpace).reverse

/-- Whether the text starts with `-`, and the text after a sign. -/
def splitSign : List Char → Bool × List Char
  | [] => (false, [])
  | c :: ds => if c = '-' then (true, ds) else if c = '+' then (false, ds) else (false, c :: ds)

/-- `absl::SimpleAtoi` into an `int` as its documentation describes it: ASCII whitespace
around, an optional sign, decimal digits, and a value that fits in 32 bits. -/
def simpleAtoi (s : List Char) : Option Int :=
  match splitSign (stripAsciiSpace s) with
  | (neg, ds) =>
    if ds ≠ [] ∧ ds.all Char.isDigit then
      let v : Int := if neg then -(Nat.ofDigitChars 10 ds 0 : Int) else Nat.ofDigitChars 10 ds 0
      if -2 ^ 31 ≤ v ∧ v < 2 ^ 31 then some v else none
    else none

/-- What `ParseCpulist` relies on of `absl::SimpleAtoi` into an `int`: the decimal numeral
of a value that fits, alone or followed by a newline (ASCII whitespace), reads as that
value. -/
structure SimpleAtoiSpec (atoi : List Char → Option Int) : Prop where
  decimal : ∀ n : Nat, n < 2 ^ 31 → atoi (Nat.toDigits 10 n) = some (n : Int)
  decimal_newline : ∀ n : Nat, n < 2 ^ 31 → atoi (Nat.toDigits 10 n ++ ['\n']) = some (n : Int)

/-- `set.Set(cpu)`, or `set.Set(c)` for every `c` from `cpu_from` to `cpu` when a range
is pending (`cpu_from != -1`). -/
def addCpu (cpuFrom cpu : Int) (set : Finset Nat) : Finset Nat :=
  if cpuFrom ≠ -1 then set ∪ Finset.Icc cpuFrom.toNat cpu.toNat else insert cpu.toNat set

/-- What a pass does with `current`, the bytes carried over and those just read (`rc == 0`
when `eof`): leave the loop (`.inl`, with `none` for `std::nullopt`), or go round with the
bytes to carry over, `cpu_from` and the set. -/
def parseCurrent (atoi : List Char → Option Int) (current : List Char) (eof : Bool) (cpuFrom : Int) (set : Finset Nat) :
    Option (Finset Nat) ⊕ (List Char × Int × Finset Nat) :=
  if current = [] ∧ eof then .inl (some set)
  else if current = ['\n'] ∧ eof then .inl (some set)
  else
    let dash := current.findIdx (· == '-')
    let comma := current.findIdx (· == ',')
    if dash < current.length ∧ dash < comma then
      match atoi (current.take dash) with
      | some cpu => if isInBounds cpu then .inr (current.drop (dash + 1), cpu, set) else .inl none
      | none => .inl none
    else if comma < current.length ∨ eof then
      match atoi (current.take comma) with
      | some cpu =>
        if isInBounds cpu then
          let consumed := if comma = current.length then current.length else comma + 1
          .inr (current.drop consumed, -1, addCpu cpuFrom cpu set)
        else .inl none
      | none => .inl none
    else .inr (current, cpuFrom, set)

/-- The loop's state: what `read` keeps, the `carry_over` bytes at the start of `buf`,
`cpu_from` and the set so far. -/
structure CpulistState (σ : Type) where
  reader : σ
  carry : List Char
  cpuFrom : Int
  set : Finset Nat

section Parse

variable {σ : Type}

/-- One pass of `while (true)`: `read(buf.data() + carry_over, buf.size() - carry_over)`,
then the parse of what the buffer holds. -/
def parseCpulistBody (atoi : List Char → Option Int) (read : σ → Nat → Option (List Char × σ)) (st : CpulistState σ) :
    Option (Option (Finset Nat) ⊕ CpulistState σ) :=
  match read st.reader (bufSize - st.carry.length) with
  | none => some (.inl none)
  | some (bytes, reader) =>
    let current := st.carry ++ bytes
    if bufSize < current.length then none
    else
      match parseCurrent atoi current bytes.isEmpty st.cpuFrom st.set with
      | .inl r => some (.inl r)
      | .inr (carry, cpuFrom, set) => some (.inr ⟨reader, carry, cpuFrom, set⟩)

/-- `ParseCpulist(read)`, with `read` starting from `reader`, in at most `fuel` passes. -/
def parseCpulist (atoi : List Char → Option Int) (read : σ → Nat → Option (List Char × σ)) (reader : σ) (fuel : Nat) :
    Option (Option (Finset Nat)) :=
  whileLoop (parseCpulistBody atoi read) fuel ⟨reader, [], -1, ∅⟩

end Parse

/-- A read function serving `input` in chunks, as the fuzz test's does: the call numbered
`i` copies `sizes i % max + 1` bytes, where `max` is what both `count` and the input left
allow, and returns `0` when that is nothing.  Every way of cutting the input into chunks
of `1` to `count` bytes is one of these. -/
def chunkRead (sizes : Nat → Nat) : List Char × Nat → Nat → Option (List Char × (List Char × Nat))
  | (rest, i), count =>
    let max := min count rest.length
    if max = 0 then some ([], (rest, i))
    else
      let copy := sizes i % max + 1
      some (rest.take copy, (rest.drop copy, i + 1))

/-! ### One pass -/

variable {atoi : List Char → Option Int}

theorem chunkRead_spec (sizes : Nat → Nat) (rest : List Char) (i count : Nat) :
    ∃ k i', chunkRead sizes (rest, i) count = some (rest.take k, (rest.drop k, i')) ∧
      k ≤ count ∧ k ≤ rest.length ∧ (k = 0 ↔ min count rest.length = 0) := by
  simp only [chunkRead]
  split_ifs with h
  · exact ⟨0, i, by simp, Nat.zero_le _, Nat.zero_le _, by simp [h]⟩
  · have := Nat.mod_lt (sizes i) (Nat.pos_of_ne_zero h)
    refine ⟨sizes i % min count rest.length + 1, i + 1, rfl, ?_, ?_, ?_⟩ <;> omega

theorem isInBounds_iff {cpu : Int} : isInBounds cpu = true ↔ 0 ≤ cpu ∧ cpu < kMaxCpus := by
  simp [isInBounds]

theorem addCpu_bounded {cpuFrom cpu : Int} {set : Finset Nat} (hcpu : isInBounds cpu = true)
    (hset : ∀ c ∈ set, c < kMaxCpus) : ∀ c ∈ addCpu cpuFrom cpu set, c < kMaxCpus := by
  rw [isInBounds_iff] at hcpu
  have hlt : cpu.toNat < kMaxCpus := by unfold kMaxCpus at *; omega
  intro c hc
  unfold addCpu at hc
  split_ifs at hc
  · rcases Finset.mem_union.mp hc with hc | hc
    · exact hset c hc
    · exact lt_of_le_of_lt (Finset.mem_Icc.mp hc).2 hlt
  · rcases Finset.mem_insert.mp hc with rfl | hc
    · exact hlt
    · exact hset c hc

theorem parseCurrent_cases (current : List Char) (eof : Bool) (cpuFrom : Int) (set : Finset Nat) :
    (parseCurrent atoi current eof cpuFrom set = .inl (some set) ∧ (current = [] ∨ current = ['\n'])) ∨
      parseCurrent atoi current eof cpuFrom set = .inl none ∨
      (∃ cpu n, isInBounds cpu = true ∧ n < current.length ∧
        parseCurrent atoi current eof cpuFrom set = .inr (current.drop (n + 1), cpu, set)) ∨
      (∃ cpu consumed, isInBounds cpu = true ∧ 0 < consumed ∧ consumed ≤ current.length ∧
        parseCurrent atoi current eof cpuFrom set = .inr (current.drop consumed, -1, addCpu cpuFrom cpu set)) ∨
      (eof = false ∧ parseCurrent atoi current eof cpuFrom set = .inr (current, cpuFrom, set)) := by
  unfold parseCurrent
  by_cases h1 : current = [] ∧ eof = true
  · exact .inl ⟨if_pos h1, .inl h1.1⟩
  rw [if_neg h1]
  by_cases h2 : current = ['\n'] ∧ eof = true
  · exact .inl ⟨if_pos h2, .inr h2.1⟩
  rw [if_neg h2]
  dsimp only
  by_cases h3 : current.findIdx (· == '-') < current.length ∧
      current.findIdx (· == '-') < current.findIdx (· == ',')
  · rw [if_pos h3]
    cases atoi (current.take (current.findIdx (· == '-'))) with
    | none => exact .inr (.inl rfl)
    | some cpu =>
      dsimp only
      by_cases hb : isInBounds cpu = true
      · rw [if_pos hb]
        exact .inr (.inr (.inl ⟨cpu, _, hb, h3.1, rfl⟩))
      · rw [if_neg hb]
        exact .inr (.inl rfl)
  rw [if_neg h3]
  by_cases h4 : current.findIdx (· == ',') < current.length ∨ eof = true
  · rw [if_pos h4]
    cases atoi (current.take (current.findIdx (· == ','))) with
    | none => exact .inr (.inl rfl)
    | some cpu =>
      dsimp only
      by_cases hb : isInBounds cpu = true
      · rw [if_pos hb]
        have hle : current.findIdx (· == ',') ≤ current.length := List.findIdx_le_length
        refine .inr (.inr (.inr (.inl ⟨cpu, _, hb, ?_, ?_, rfl⟩)))
        · split_ifs with hc
          · -- `npos`: the whole text, which is not empty once `eof` passed the first test
            have heof : eof = true := by simpa [hc] using h4
            exact List.length_pos_iff.mpr fun h => h1 ⟨h, heof⟩
          · exact Nat.succ_pos _
        · split_ifs with hc
          · exact le_refl _
          · omega
      · rw [if_neg hb]
        exact .inr (.inl rfl)
  · rw [if_neg h4]
    have heof : eof = false := by simpa using (not_or.mp h4).2
    exact .inr (.inr (.inr (.inr ⟨heof, rfl⟩)))

theorem parseCurrent_inl {current : List Char} {eof : Bool} {cpuFrom : Int} {set S : Finset Nat}
    (h : parseCurrent atoi current eof cpuFrom set = .inl (some S)) : S = set := by
  rcases @parseCurrent_cases atoi current eof cpuFrom set with ⟨h', -⟩ | h' | ⟨_, _, -, -, h'⟩ |
    ⟨_, _, -, -, -, h'⟩ | ⟨-, h'⟩ <;> rw [h'] at h <;> cases h
  rfl

theorem parseCurrent_inr {current carry : List Char} {eof : Bool} {cpuFrom cpuFrom' : Int}
    {set set' : Finset Nat} (h : parseCurrent atoi current eof cpuFrom set = .inr (carry, cpuFrom', set')) :
    (carry.length < current.length ∨ (carry = current ∧ eof = false)) ∧
      ((∀ c ∈ set, c < kMaxCpus) → ∀ c ∈ set', c < kMaxCpus) := by
  rcases @parseCurrent_cases atoi current eof cpuFrom set with ⟨h', -⟩ | h' | ⟨cpu, n, -, hn, h'⟩ |
    ⟨cpu, consumed, hb, hpos, hle, h'⟩ | ⟨heof, h'⟩ <;> rw [h'] at h <;> cases h
  · exact ⟨.inl (by simp only [List.length_drop]; omega), id⟩
  · exact ⟨.inl (by simp only [List.length_drop]; omega), addCpu_bounded hb⟩
  · exact ⟨.inr ⟨rfl, heof⟩, id⟩

/-! ### Any input, any chunking -/

section Chunks

variable (sizes : Nat → Nat)

/-- Twice the bytes left to read plus the bytes carried over: every pass that goes round
lowers it. -/
def pending (st : CpulistState (List Char × Nat)) : Nat := 2 * st.reader.1.length + st.carry.length

theorem parseCpulistBody_chunk (st : CpulistState (List Char × Nat)) (hc : st.carry.length ≤ bufSize) :
    ∃ k i', k ≤ bufSize - st.carry.length ∧ k ≤ st.reader.1.length ∧
      (k = 0 ↔ min (bufSize - st.carry.length) st.reader.1.length = 0) ∧
      parseCpulistBody atoi (chunkRead sizes) st =
        match parseCurrent atoi (st.carry ++ st.reader.1.take k) (st.reader.1.take k).isEmpty st.cpuFrom st.set with
        | .inl r => some (.inl r)
        | .inr (carry, cpuFrom, set) => some (.inr ⟨(st.reader.1.drop k, i'), carry, cpuFrom, set⟩) := by
  obtain ⟨⟨rest, i⟩, carry, cpuFrom, set⟩ := st
  obtain ⟨k, i', hread, hk, hkr, hk0⟩ := chunkRead_spec sizes rest i (bufSize - carry.length)
  refine ⟨k, i', hk, hkr, hk0, ?_⟩
  have hfit : ¬ bufSize < (carry ++ rest.take k).length := by
    simp only [List.length_append, List.length_take]
    dsimp only at hc
    omega
  simp only [parseCpulistBody, hread, if_neg hfit]

/-- The loop's invariant for any input: the carried bytes fit in `buf`, and the set holds
only CPUs below `kMaxCpus`. -/
structure Safe (st : CpulistState (List Char × Nat)) : Prop where
  carry : st.carry.length ≤ bufSize
  bounded : ∀ c ∈ st.set, c < kMaxCpus

theorem safe_step (st : CpulistState (List Char × Nat)) (hs : Safe st) :
    (∃ r, parseCpulistBody atoi (chunkRead sizes) st = some (.inl r) ∧ ∀ S, r = some S → ∀ c ∈ S, c < kMaxCpus) ∨
      ∃ st', parseCpulistBody atoi (chunkRead sizes) st = some (.inr st') ∧ Safe st' ∧ pending st' < pending st := by
  obtain ⟨k, i', hk, hkr, hk0, hbody⟩ := parseCpulistBody_chunk sizes st hs.carry
  rw [hbody]
  cases hp : parseCurrent atoi (st.carry ++ st.reader.1.take k) (st.reader.1.take k).isEmpty st.cpuFrom st.set with
  | inl r =>
    refine .inl ⟨r, rfl, fun S hS c hc => ?_⟩
    subst hS
    rw [parseCurrent_inl hp] at hc
    exact hs.bounded c hc
  | inr p =>
    obtain ⟨carry, cpuFrom, set⟩ := p
    obtain ⟨hlen, hset⟩ := parseCurrent_inr hp
    have hcur : (st.carry ++ st.reader.1.take k).length = st.carry.length + k := by
      simp only [List.length_append, List.length_take]
      omega
    refine .inr ⟨_, rfl, ⟨?_, hset hs.bounded⟩, ?_⟩ <;> simp only [pending, List.length_drop] <;>
      rcases hlen with hlen | ⟨rfl, heof⟩
    · have := hs.carry
      omega
    · have := hs.carry
      omega
    · omega
    · -- a pass that waits has read at least one byte
      have hk1 : k ≠ 0 := fun h => by simp [h] at heof
      omega

theorem parseCpulist_safe (input : List Char) :
    ∃ r, parseCpulist atoi (chunkRead sizes) (input, 0) (2 * input.length + 1) = some r ∧
      ∀ S, r = some S → ∀ c ∈ S, c < kMaxCpus :=
  whileLoop_measure Safe _ pending (safe_step sizes) _ _ ⟨by simp [bufSize], by simp⟩
    (by simp [pending])

end Chunks

/-! ### CPU lists -/

/-- An item of a CPU list: the CPU `a`, or the CPUs `a` to `b`. -/
inductive CpuItem
  | cpu (a : Nat)
  | range (a b : Nat)

namespace CpuItem

/-- The item's CPUs are below `kMaxCpus`, a range's in order. -/
def Valid : CpuItem → Prop
  | cpu a => a < kMaxCpus
  | range a b => a ≤ b ∧ b < kMaxCpus

instance : DecidablePred Valid := fun it =>
  match it with
  | cpu a => inferInstanceAs (Decidable (a < kMaxCpus))
  | range a b => inferInstanceAs (Decidable (a ≤ b ∧ b < kMaxCpus))

/-- The item in decimal: `a`, or `a-b`. -/
def text : CpuItem → List Char
  | cpu a => Nat.toDigits 10 a
  | range a b => Nat.toDigits 10 a ++ '-' :: Nat.toDigits 10 b

/-- The item's CPUs. -/
def cpus : CpuItem → Finset Nat
  | cpu a => {a}
  | range a b => Finset.Icc a b

end CpuItem

/-- `\n` when `newline`. -/
def newlineText (newline : Bool) : List Char := if newline then ['\n'] else []

@[simp] theorem newlineText_false : newlineText false = [] := rfl

@[simp] theorem newlineText_true : newlineText true = ['\n'] := rfl

/-- A CPU list: its items joined by `,`, then a `\n` or not. -/
def cpulistText (items : List CpuItem) (newline : Bool) : List Char :=
  [','].intercalate (items.map CpuItem.text) ++ newlineText newline

/-- The CPUs a list names. -/
def cpulistCpus (items : List CpuItem) : Finset Nat := items.foldr (fun it s => it.cpus ∪ s) ∅

/-! ### Decimal numbers -/

theorem isDigit_of_mem_toDigits {n : Nat} {c : Char} (hc : c ∈ Nat.toDigits 10 n) : c.isDigit = true :=
  Nat.isDigit_of_mem_toDigits (by decide) (by decide) hc

theorem digit_ne {c : Char} (hc : c.isDigit = true) :
    c ≠ '-' ∧ c ≠ ',' ∧ c ≠ '+' ∧ c ≠ '\n' ∧ asciiIsSpace c = false := by
  simp only [Char.isDigit, Bool.and_eq_true, decide_eq_true_eq] at hc
  refine ⟨?_, ?_, ?_, ?_, ?_⟩ <;> (try intro h) <;> (try subst h) <;> (try simp at hc)
  simp only [asciiIsSpace, Bool.or_eq_false_iff, beq_eq_false_iff_ne, ne_eq]
  refine ⟨⟨⟨⟨⟨?_, ?_⟩, ?_⟩, ?_⟩, ?_⟩, ?_⟩ <;> intro h <;> subst h <;> simp at hc

theorem length_toDigits_le {n : Nat} (hn : n < kMaxCpus) : (Nat.toDigits 10 n).length ≤ 4 :=
  (Nat.length_toDigits_le_iff (by decide) (by decide)).mpr (lt_of_lt_of_le hn (by decide))

theorem simpleAtoi_toDigits {n : Nat} (hn : n < 2 ^ 31) (newline : Bool) :
    simpleAtoi (Nat.toDigits 10 n ++ newlineText newline) = some (n : Int) := by
  obtain ⟨d, ds, hD⟩ := List.exists_cons_of_ne_nil (Nat.toDigits_ne_nil (n := n) (b := 10))
  have hd := digit_ne (isDigit_of_mem_toDigits (hD ▸ List.mem_cons_self))
  obtain ⟨l, e, hl⟩ := List.exists_cons_of_ne_nil (List.reverse_ne_nil_iff.mpr (Nat.toDigits_ne_nil (n := n) (b := 10)))
  have he := digit_ne (isDigit_of_mem_toDigits (List.mem_reverse.mp (hl ▸ List.mem_cons_self)))
  have hstrip : stripAsciiSpace (Nat.toDigits 10 n ++ newlineText newline) = Nat.toDigits 10 n := by
    unfold stripAsciiSpace
    rw [hD, List.cons_append, List.dropWhile_cons_of_neg (by simp [hd.2.2.2.2]), ← List.cons_append, ← hD,
      List.reverse_append]
    cases newline
    · rw [newlineText_false, List.reverse_nil, List.nil_append, hl,
        List.dropWhile_cons_of_neg (by simp [he.2.2.2.2]), ← hl, List.reverse_reverse]
    · rw [newlineText_true, List.reverse_singleton, List.singleton_append, hl,
        List.dropWhile_cons_of_pos (by decide), List.dropWhile_cons_of_neg (by simp [he.2.2.2.2]), ← hl,
        List.reverse_reverse]
  have hsign : splitSign (Nat.toDigits 10 n) = (false, Nat.toDigits 10 n) := by
    rw [hD]
    simp [splitSign, hd.1, hd.2.2.1]
  have hall : (Nat.toDigits 10 n).all Char.isDigit = true :=
    List.all_eq_true.mpr fun c hc => isDigit_of_mem_toDigits hc
  simp only [simpleAtoi, hstrip, hsign, ne_eq, Nat.toDigits_ne_nil, not_false_eq_true, hall, and_self,
    if_true, Bool.false_eq_true, if_false, Nat.ofDigitChars_ten_toDigits]
  rw [if_pos ⟨by omega, by omega⟩]

theorem simpleAtoi_spec : SimpleAtoiSpec simpleAtoi :=
  ⟨fun _ hn => by simpa using simpleAtoi_toDigits hn false, fun _ hn => simpleAtoi_toDigits hn true⟩

theorem SimpleAtoiSpec.toDigits_append (hatoi : SimpleAtoiSpec atoi) {n : Nat} (hn : n < kMaxCpus)
    (newline : Bool) : atoi (Nat.toDigits 10 n ++ newlineText newline) = some (n : Int) := by
  have h31 : n < 2 ^ 31 := by
    unfold kMaxCpus at hn
    omega
  cases newline
  · rw [newlineText_false, List.append_nil]
    exact hatoi.decimal n h31
  · exact hatoi.decimal_newline n h31

/-! ### The numbers of a list -/

/-- A number of a CPU list with what follows it: `-` when it starts a range, `,` or the
end otherwise. -/
structure Token where
  n : Nat
  dash : Bool

/-- The separator after a number that is not the last. -/
def Token.sep (t : Token) : Char := if t.dash then '-' else ','

/-- What the loop does with a number: `cpu_from` and the set after it. -/
def Token.step (acc : Int × Finset Nat) (t : Token) : Int × Finset Nat :=
  if t.dash then (t.n, acc.2) else (-1, addCpu acc.1 t.n acc.2)

/-- The numbers of an item. -/
def CpuItem.tokens : CpuItem → List Token
  | .cpu a => [⟨a, false⟩]
  | .range a b => [⟨a, true⟩, ⟨b, false⟩]

/-- The text of numbers with their separators. -/
def tokensText : List Token → List Char
  | [] => []
  | [t] => Nat.toDigits 10 t.n
  | t :: u :: ts => Nat.toDigits 10 t.n ++ t.sep :: tokensText (u :: ts)

theorem tokensText_cons_cons {t u : Token} {ts : List Token} :
    tokensText (t :: u :: ts) = Nat.toDigits 10 t.n ++ t.sep :: tokensText (u :: ts) := rfl

theorem tokensText_tokens_append (it : CpuItem) {us : List Token} (hus : us ≠ []) :
    tokensText (it.tokens ++ us) = it.text ++ ',' :: tokensText us := by
  obtain ⟨u, us, rfl⟩ := List.exists_cons_of_ne_nil hus
  cases it with
  | cpu a => rfl
  | range a b => simp [CpuItem.tokens, CpuItem.text, tokensText_cons_cons, Token.sep]

theorem cpulistText_eq (items : List CpuItem) (newline : Bool) :
    cpulistText items newline = tokensText (items.flatMap CpuItem.tokens) ++ newlineText newline := by
  unfold cpulistText
  congr 1
  induction items with
  | nil => rfl
  | cons it items ih =>
    cases items with
    | nil =>
      rw [List.map_singleton, List.intercalate_singleton, List.flatMap_cons, List.flatMap_nil,
        List.append_nil]
      cases it <;> rfl
    | cons it' items =>
      have hne : (it' :: items).flatMap CpuItem.tokens ≠ [] := by
        cases it' <;> simp [CpuItem.tokens]
      rw [List.map_cons, List.map_cons, List.intercalate_cons_cons, ← List.map_cons, ih,
        show (it :: it' :: items).flatMap CpuItem.tokens = it.tokens ++ (it' :: items).flatMap CpuItem.tokens
          from List.flatMap_cons, tokensText_tokens_append it hne]
      simp

theorem foldl_tokens (items : List CpuItem) (set : Finset Nat) :
    (items.flatMap CpuItem.tokens).foldl Token.step (-1, set) = (-1, set ∪ cpulistCpus items) := by
  induction items generalizing set with
  | nil => simp [cpulistCpus]
  | cons it items ih =>
    have hit : it.tokens.foldl Token.step (-1, set) = (-1, set ∪ it.cpus) := by
      cases it with
      | cpu a =>
        simp only [CpuItem.tokens, List.foldl_cons, List.foldl_nil, Token.step, Bool.false_eq_true,
          if_false, addCpu, ne_eq, not_true_eq_false, Int.toNat_natCast, CpuItem.cpus]
        rw [Finset.insert_eq, Finset.union_comm]
      | range a b =>
        simp only [CpuItem.tokens, List.foldl_cons, List.foldl_nil, Token.step, if_true,
          Bool.false_eq_true, if_false, addCpu, Int.toNat_natCast, CpuItem.cpus]
        rw [if_pos (by omega)]
    rw [List.flatMap_cons, List.foldl_append, hit, ih]
    simp only [cpulistCpus, List.foldr_cons, Finset.union_assoc]

/-! ### Passes over a CPU list -/

theorem findIdx_toDigits_append {n : Nat} {c : Char} (hc : c = '-' ∨ c = ',') (l : List Char) :
    (Nat.toDigits 10 n ++ l).findIdx (· == c) = l.findIdx (· == c) + (Nat.toDigits 10 n).length := by
  have hno : ∀ x ∈ Nat.toDigits 10 n, (x == c) = false := by
    intro x hx
    have hx := digit_ne (isDigit_of_mem_toDigits hx)
    rcases hc with rfl | rfl
    · exact beq_false_of_ne hx.1
    · exact beq_false_of_ne hx.2.1
  rw [List.findIdx_append, List.findIdx_eq_length_of_false hno, if_neg (Nat.lt_irrefl _)]

theorem isInBounds_of_lt {n : Nat} (hn : n < kMaxCpus) : isInBounds n = true :=
  isInBounds_iff.mpr ⟨Int.natCast_nonneg n, by exact_mod_cast hn⟩

theorem parseCurrent_token (hatoi : SimpleAtoiSpec atoi) (t : Token) (ht : t.n < kMaxCpus) (more : List Char) (eof : Bool)
    (cpuFrom : Int) (set : Finset Nat) :
    parseCurrent atoi (Nat.toDigits 10 t.n ++ t.sep :: more) eof cpuFrom set =
      .inr (more, (t.step (cpuFrom, set)).1, (t.step (cpuFrom, set)).2) := by
  have hlen : (Nat.toDigits 10 t.n ++ t.sep :: more).length = (Nat.toDigits 10 t.n).length + 1 + more.length := by
    simp only [List.length_append, List.length_cons]
    omega
  have hpos := Nat.length_toDigits_pos (b := 10) (n := t.n)
  have hnum : atoi (Nat.toDigits 10 t.n) = some (t.n : Int) := by
    simpa using hatoi.toDigits_append ht false
  have h1 : ¬(Nat.toDigits 10 t.n ++ t.sep :: more = [] ∧ eof = true) := fun h => by simp at h
  have h2 : ¬(Nat.toDigits 10 t.n ++ t.sep :: more = ['\n'] ∧ eof = true) := fun h => by
    have := congrArg List.length h.1
    simp only [hlen, List.length_singleton] at this
    omega
  have htake : (Nat.toDigits 10 t.n ++ t.sep :: more).take (Nat.toDigits 10 t.n).length = Nat.toDigits 10 t.n :=
    List.take_left' rfl
  have hdrop : (Nat.toDigits 10 t.n ++ t.sep :: more).drop ((Nat.toDigits 10 t.n).length + 1) = more := by
    simp
  obtain ⟨n, dash⟩ := t
  unfold parseCurrent
  rw [if_neg h1, if_neg h2]
  dsimp only
  rw [findIdx_toDigits_append (.inl rfl), findIdx_toDigits_append (.inr rfl)]
  cases dash with
  | true =>
    -- `-` comes first: the number opens a range
    have hd : ('-' :: more).findIdx (· == '-') = 0 := by simp [List.findIdx_cons]
    have hc : ('-' :: more).findIdx (· == ',') = more.findIdx (· == ',') + 1 := by simp [List.findIdx_cons]
    simp only [Token.sep, if_true] at hlen htake hdrop ⊢
    rw [hd, hc, if_pos ⟨by omega, by omega⟩, Nat.zero_add, htake, hnum]
    dsimp only
    rw [if_pos (isInBounds_of_lt ht), hdrop]
    rfl
  | false =>
    -- `,` comes first: the number is a CPU, or the end of a pending range
    have hd : (',' :: more).findIdx (· == '-') = more.findIdx (· == '-') + 1 := by simp [List.findIdx_cons]
    have hc : (',' :: more).findIdx (· == ',') = 0 := by simp [List.findIdx_cons]
    simp only [Token.sep, Bool.false_eq_true, if_false] at hlen htake hdrop ⊢
    rw [hd, hc, if_neg (by omega), if_pos (.inl (by omega)), Nat.zero_add, htake, hnum]
    dsimp only
    rw [if_pos (isInBounds_of_lt ht), if_neg (by omega), hdrop]
    rfl

theorem parseCurrent_last (hatoi : SimpleAtoiSpec atoi) {n : Nat} (hn : n < kMaxCpus) (newline : Bool) (cpuFrom : Int)
    (set : Finset Nat) :
    parseCurrent atoi (Nat.toDigits 10 n ++ newlineText newline) true cpuFrom set =
      .inr ([], -1, addCpu cpuFrom n set) := by
  have hpos := Nat.length_toDigits_pos (b := 10) (n := n)
  have hnl : ∀ c ∈ newlineText newline, c = '\n' := by cases newline <;> simp
  -- no separator anywhere: both `find`s answer `npos`
  have hnone : ∀ c, (c = '-' ∨ c = ',') →
      (Nat.toDigits 10 n ++ newlineText newline).findIdx (· == c) =
        (Nat.toDigits 10 n ++ newlineText newline).length := by
    intro c hc
    rw [findIdx_toDigits_append hc, List.length_append, List.findIdx_eq_length_of_false]
    · rw [Nat.add_comm]
    · intro x hx
      rw [hnl x hx]
      rcases hc with rfl | rfl <;> decide
  have h1 : ¬(Nat.toDigits 10 n ++ newlineText newline = [] ∧ true = true) := fun h => by simp at h
  have h2 : ¬(Nat.toDigits 10 n ++ newlineText newline = ['\n'] ∧ true = true) := fun h => by
    obtain ⟨d, ds, hD⟩ := List.exists_cons_of_ne_nil (Nat.toDigits_ne_nil (n := n) (b := 10))
    have hd := digit_ne (isDigit_of_mem_toDigits (hD ▸ List.mem_cons_self))
    rw [hD, List.cons_append, List.cons_eq_cons] at h
    exact hd.2.2.2.1 h.1.1
  unfold parseCurrent
  rw [if_neg h1, if_neg h2]
  dsimp only
  rw [hnone '-' (.inl rfl), hnone ',' (.inr rfl), if_neg (fun h => Nat.lt_irrefl _ h.1),
    if_pos (.inr rfl), List.take_length, hatoi.toDigits_append hn]
  dsimp only
  rw [if_pos (isInBounds_of_lt hn), if_pos rfl, List.drop_length]

theorem parseCurrent_wait {current : List Char} (hsep : ∀ c ∈ current, c ≠ '-' ∧ c ≠ ',')
    (cpuFrom : Int) (set : Finset Nat) :
    parseCurrent atoi current false cpuFrom set = .inr (current, cpuFrom, set) := by
  have hdash : current.findIdx (· == '-') = current.length :=
    List.findIdx_eq_length_of_false fun c hc => beq_false_of_ne (hsep c hc).1
  have hcomma : current.findIdx (· == ',') = current.length :=
    List.findIdx_eq_length_of_false fun c hc => beq_false_of_ne (hsep c hc).2
  unfold parseCurrent
  simp only [Bool.false_eq_true, and_false, if_false, hdash, hcomma, Nat.lt_irrefl, or_self]

theorem parseCurrent_end {current : List Char} (h : current = [] ∨ current = ['\n']) (cpuFrom : Int)
    (set : Finset Nat) : parseCurrent atoi current true cpuFrom set = .inl (some set) := by
  unfold parseCurrent
  rcases h with rfl | rfl
  · rfl
  · rw [if_neg (by simp), if_pos ⟨rfl, rfl⟩]

theorem tokensText_cons_append {t : Token} {ts : List Token} (hts : ts ≠ []) (tail : List Char) :
    tokensText (t :: ts) ++ tail = Nat.toDigits 10 t.n ++ t.sep :: (tokensText ts ++ tail) := by
  obtain ⟨u, us, rfl⟩ := List.exists_cons_of_ne_nil hts
  simp [tokensText_cons_cons]

theorem noSep_take {t : Token} {ts : List Token} {newline : Bool} {m : Nat}
    (h : ¬(ts ≠ [] ∧ (Nat.toDigits 10 t.n).length < m)) :
    ∀ c ∈ (tokensText (t :: ts) ++ newlineText newline).take m, c ≠ '-' ∧ c ≠ ',' := by
  intro c hc
  have hdigit : ∀ c ∈ Nat.toDigits 10 t.n, c ≠ '-' ∧ c ≠ ',' := fun c hc =>
    ⟨(digit_ne (isDigit_of_mem_toDigits hc)).1, (digit_ne (isDigit_of_mem_toDigits hc)).2.1⟩
  by_cases hts : ts = []
  · subst hts
    rcases List.mem_append.mp (List.mem_of_mem_take hc) with hc | hc
    · exact hdigit c hc
    · cases newline <;> simp_all
  · have hm : m ≤ (Nat.toDigits 10 t.n).length := Nat.le_of_not_lt fun hlt => h ⟨hts, hlt⟩
    rw [tokensText_cons_append hts, List.take_append_of_le_length hm] at hc
    exact hdigit c (List.mem_of_mem_take hc)

/-- The loop partway through the text of the numbers `toks`, the last of which opens no
range: the carried bytes and the input left spell the rest of the text, the carried bytes
leave room in `buf`, and `cpu_from` and the set are such that the numbers left make
`target`. -/
structure Reading (toks : List Token) (target : Finset Nat) (st : CpulistState (List Char × Nat)) :
    Prop where
  text : ∃ newline, st.carry ++ st.reader.1 = tokensText toks ++ newlineText newline
  bounded : ∀ t ∈ toks, t.n < kMaxCpus
  last : ∀ t ∈ toks.getLast?, t.dash = false
  room : st.carry.length < bufSize
  fold : toks.foldl Token.step (st.cpuFrom, st.set) = (-1, target)

section Chunks

variable (sizes : Nat → Nat)

theorem reading_step (hatoi : SimpleAtoiSpec atoi) {toks : List Token} {target : Finset Nat} {st : CpulistState (List Char × Nat)}
    (hr : Reading toks target st) :
    parseCpulistBody atoi (chunkRead sizes) st = some (.inl (some target)) ∨
      ∃ st', parseCpulistBody atoi (chunkRead sizes) st = some (.inr st') ∧
        (∃ toks', Reading toks' target st') ∧ pending st' < pending st := by
  obtain ⟨newline, htext⟩ := hr.text
  obtain ⟨k, i', hk, hkr, hk0, hbody⟩ := parseCpulistBody_chunk sizes st (le_of_lt hr.room)
  rw [hbody]
  have hroom := hr.room
  unfold bufSize at hk hk0 hroom
  -- the pass parses the first `m` bytes of the rest of the text and leaves the others unread
  have hcur : st.carry ++ st.reader.1.take k =
      (tokensText toks ++ newlineText newline).take (st.carry.length + k) := by
    rw [← htext, List.take_length_add_append]
  have hrest : st.reader.1.drop k = (tokensText toks ++ newlineText newline).drop (st.carry.length + k) := by
    rw [← htext, List.drop_length_add_append]
  have hlen : st.carry.length + st.reader.1.length = (tokensText toks ++ newlineText newline).length := by
    rw [← htext, List.length_append]
  have heof : (st.reader.1.take k).isEmpty = true ↔ k = 0 := by
    cases k with
    | zero => simp
    | succ j =>
      have hne : st.reader.1 ≠ [] := fun h => by simp [h] at hkr
      simp [hne]
  have hk0' : k = 0 ↔ st.reader.1 = [] := by
    rw [hk0, ← List.length_eq_zero_iff]
    omega
  rw [hcur, hrest]
  generalize hF : tokensText toks ++ newlineText newline = F at hlen
  have hpend : pending st = 2 * st.reader.1.length + st.carry.length := rfl
  cases toks with
  | nil =>
    have hF' : F = newlineText newline := by rw [← hF]; rfl
    by_cases hk1 : k = 0
    · -- the text is over: leave with the set
      have hrest0 := hk0'.mp hk1
      have htake : F.take (st.carry.length + k) = F := by
        rw [List.take_of_length_le]
        rw [hrest0] at hlen
        simp only [List.length_nil] at hlen
        omega
      have hset : st.set = target := (Prod.mk.inj hr.fold).2
      left
      rw [heof.mpr hk1, htake, parseCurrent_end (by cases newline <;> simp [hF']), hset]
    · -- only the `\n` is left: wait for the end
      right
      have hsep : ∀ c ∈ F.take (st.carry.length + k), c ≠ '-' ∧ c ≠ ',' := by
        intro c hc
        have := List.mem_of_mem_take hc
        rw [hF'] at this
        cases newline <;> simp_all
      rw [Bool.eq_false_iff.mpr (mt heof.mp hk1), parseCurrent_wait hsep]
      have hF1 : F.length ≤ 1 := by rw [hF']; cases newline <;> simp
      refine ⟨_, rfl, ⟨[], ⟨newline, ?_⟩, hr.bounded, hr.last, ?_, hr.fold⟩, ?_⟩
      · rw [List.take_append_drop, hF']
        rfl
      · show _ < bufSize
        unfold bufSize
        simp only [List.length_take]
        omega
      · rw [hpend]
        simp only [pending, List.length_take, List.length_drop]
        omega
  | cons t ts =>
    have ht := hr.bounded t List.mem_cons_self
    have hD4 := length_toDigits_le ht
    have hDpos := Nat.length_toDigits_pos (b := 10) (n := t.n)
    have hnl : (newlineText newline).length ≤ 1 := by cases newline <;> simp
    by_cases hA : ts ≠ [] ∧ (Nat.toDigits 10 t.n).length < st.carry.length + k
    · -- the buffer holds the first number and its separator: take the number
      right
      have hX := tokensText_cons_append (t := t) hA.1 (newlineText newline)
      rw [hF] at hX
      have hm : st.carry.length + k = (Nat.toDigits 10 t.n).length +
          ((st.carry.length + k - (Nat.toDigits 10 t.n).length - 1) + 1) := by omega
      have hXlen : F.length = (Nat.toDigits 10 t.n).length + 1 + (tokensText ts ++ newlineText newline).length := by
        rw [hX, List.length_append, List.length_cons]
        omega
      rw [hm, hX, List.take_length_add_append, List.take_succ_cons, List.drop_length_add_append,
        List.drop_succ_cons, parseCurrent_token hatoi t ht]
      refine ⟨_, rfl, ⟨ts, ⟨newline, List.take_append_drop _ _⟩,
        fun u hu => hr.bounded u (List.mem_cons_of_mem t hu), ?_, ?_, ?_⟩, ?_⟩
      · obtain ⟨u, us, hus⟩ := List.exists_cons_of_ne_nil hA.1
        subst hus
        simpa [List.getLast?_cons_cons] using hr.last
      · show _ < bufSize
        unfold bufSize
        simp only [List.length_take]
        omega
      · rw [← hr.fold, List.foldl_cons]
      · rw [hpend]
        simp only [pending, List.length_take, List.length_drop]
        omega
    · have hsep := @noSep_take t ts newline (st.carry.length + k) hA
      rw [hF] at hsep
      by_cases hk1 : k = 0
      · -- the input is over: take the last number whole
        right
        have hrest0 := hk0'.mp hk1
        have hm : st.carry.length + k = F.length := by
          rw [hrest0] at hlen
          simp only [List.length_nil] at hlen
          omega
        have hts : ts = [] := by
          by_contra hts
          have hX := tokensText_cons_append (t := t) hts (newlineText newline)
          rw [hF] at hX
          have : F.length = (Nat.toDigits 10 t.n).length + 1 + (tokensText ts ++ newlineText newline).length := by
            rw [hX, List.length_append, List.length_cons]
            omega
          exact hA ⟨hts, by omega⟩
        subst hts
        have hF' : F = Nat.toDigits 10 t.n ++ newlineText newline := by rw [← hF]; rfl
        have hdash : t.dash = false := hr.last t (by simp)
        rw [heof.mpr hk1, hm, List.take_length, List.drop_length, hF', parseCurrent_last hatoi ht]
        refine ⟨_, rfl, ⟨[], ⟨false, rfl⟩, by simp, by simp, by unfold bufSize; simp, ?_⟩, ?_⟩
        · simpa [Token.step, hdash] using hr.fold
        · have : 0 < F.length := by rw [hF', List.length_append]; omega
          rw [hpend]
          simp only [pending, List.length_nil]
          omega
      · -- no separator yet: wait for more bytes
        right
        rw [Bool.eq_false_iff.mpr (mt heof.mp hk1), parseCurrent_wait hsep]
        have hshort : st.carry.length + k ≤ (Nat.toDigits 10 t.n).length + 1 := by
          by_cases hts : ts = []
          · subst hts
            have hF' : F = Nat.toDigits 10 t.n ++ newlineText newline := by rw [← hF]; rfl
            have : F.length ≤ (Nat.toDigits 10 t.n).length + 1 := by
              rw [hF', List.length_append]
              omega
            omega
          · have := Nat.le_of_not_lt fun hlt => hA ⟨hts, hlt⟩
            omega
        refine ⟨_, rfl, ⟨t :: ts, ⟨newline, by rw [List.take_append_drop, hF]⟩, hr.bounded, hr.last,
          ?_, hr.fold⟩, ?_⟩
        · show _ < bufSize
          unfold bufSize
          simp only [List.length_take]
          omega
        · rw [hpend]
          simp only [pending, List.length_take, List.length_drop]
          omega

end Chunks

theorem bounded_tokens {items : List CpuItem} (hitems : ∀ it ∈ items, it.Valid) :
    ∀ t ∈ items.flatMap CpuItem.tokens, t.n < kMaxCpus := by
  intro t ht
  obtain ⟨it, hit, ht⟩ := List.mem_flatMap.mp ht
  have hv := hitems it hit
  cases it with
  | cpu a =>
    simp only [CpuItem.tokens, List.mem_singleton] at ht
    subst ht
    exact hv
  | range a b =>
    simp only [CpuItem.tokens, List.mem_cons, List.not_mem_nil, or_false] at ht
    rcases ht with rfl | rfl
    · exact lt_of_le_of_lt hv.1 hv.2
    · exact hv.2

theorem last_tokens (items : List CpuItem) :
    ∀ t ∈ (items.flatMap CpuItem.tokens).getLast?, t.dash = false := by
  induction items with
  | nil => simp
  | cons it items ih =>
    intro t ht
    rw [List.flatMap_cons, List.getLast?_append] at ht
    cases hl : (items.flatMap CpuItem.tokens).getLast? with
    | some u =>
      rw [hl, Option.some_or, Option.mem_some_iff] at ht
      subst ht
      exact ih _ hl
    | none =>
      rw [hl] at ht
      cases it <;> simp [CpuItem.tokens] at ht <;> rw [← ht]

theorem parseCpulist_exact (hatoi : SimpleAtoiSpec atoi) (sizes : Nat → Nat) (items : List CpuItem) (newline : Bool)
    (hitems : ∀ it ∈ items, it.Valid) :
    parseCpulist atoi (chunkRead sizes) (cpulistText items newline, 0) (2 * (cpulistText items newline).length + 1) =
      some (some (cpulistCpus items)) := by
  have hinit : Reading (items.flatMap CpuItem.tokens) (cpulistCpus items)
      ⟨(cpulistText items newline, 0), [], -1, ∅⟩ :=
    { text := ⟨newline, by rw [cpulistText_eq]; rfl⟩
      bounded := bounded_tokens hitems
      last := last_tokens items
      room := by simp [bufSize]
      fold := by rw [foldl_tokens, Finset.empty_union] }
  obtain ⟨r, hrun, rfl⟩ := whileLoop_measure (fun st => ∃ toks, Reading toks (cpulistCpus items) st)
    (· = some (cpulistCpus items)) pending
    (fun st ⟨_, hst⟩ => (reading_step sizes hatoi hst).imp (fun h => ⟨_, h, rfl⟩) id)
    (2 * (cpulistText items newline).length + 1) _ ⟨_, hinit⟩ (by simp [pending])
  exact hrun

/-- `ParseCpulist` is exact and independent of chunking: with any chunking of its input, a
CPU list of valid items, with or without a final `\n`, gives exactly its CPUs; and any input
gives, within `2 * length + 1` passes and without a byte past `buf`, `std::nullopt` or a
set of CPUs below `kMaxCpus`. -/
theorem parseCpulist_exact_for_every_chunking (atoi : List Char → Option Int) (hatoi : SimpleAtoiSpec atoi)
    (sizes : Nat → Nat) :
    (∀ (items : List CpuItem) (newline : Bool), (∀ it ∈ items, it.Valid) →
      parseCpulist atoi (chunkRead sizes) (cpulistText items newline, 0) (2 * (cpulistText items newline).length + 1) =
        some (some (cpulistCpus items))) ∧
    ∀ input : List Char, ∃ r, parseCpulist atoi (chunkRead sizes) (input, 0) (2 * input.length + 1) = some r ∧
      ∀ S, r = some S → ∀ c ∈ S, c < kMaxCpus :=
  ⟨parseCpulist_exact hatoi sizes, parseCpulist_safe sizes⟩

theorem parseCpulist_exact_for_every_chunking_one_byte_reads :
    SimpleAtoiSpec simpleAtoi ∧ (∀ it ∈ [CpuItem.cpu 0, .range 2 5], it.Valid) ∧
      parseCpulist simpleAtoi (chunkRead fun _ => 0) (cpulistText [.cpu 0, .range 2 5] true, 0)
          (2 * (cpulistText [.cpu 0, .range 2 5] true).length + 1) =
        some (some (cpulistCpus [.cpu 0, .range 2 5])) :=
  ⟨simpleAtoi_spec, by decide,
    (parseCpulist_exact_for_every_chunking simpleAtoi simpleAtoi_spec fun _ => 0).1 _ true (by decide)⟩

end TCMalloc.Internal.Sysinfo
