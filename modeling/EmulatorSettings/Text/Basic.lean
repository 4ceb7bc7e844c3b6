/-!
# Text

Texts are lists of characters here.  A character is blank, `isBlank c`, when it has the Unicode
property `White_Space`.  That is wider than ASCII space: it holds U+0085, U+00A0, the spaces from
U+2000 on and U+3000, and it holds neither the zero width space U+200B nor the byte order mark
U+FEFF.  A line, as `lines` gives it, ends at a line feed; one carriage return right before the line
feed belongs to the end of the line, and text after the last line feed is a line of its own unless
it is empty.

* `trim_eq_self_iff`: `trim` leaves a text alone exactly when neither of its ends is blank.
* `cutAt_eq_some_iff`: `cutAt sep` splits a text at the first `sep`.
* `ofDigits_natDigits`: `ofDigits` reads back what `natDigits` writes.
* `ofDigits_append`: `ofDigits` is positional.
-/

namespace EmulatorSettings.Text

/-! ### Blank characters -/

/-- Whether `c` has the property `White_Space`, as 25 characters do. -/
def isBlank (c : Char) : Bool :=
  let n := c.toNat
  (0x09 ≤ n && n ≤ 0x0D) || n == 0x20 || n == 0x85 || n == 0xA0 || n == 0x1680 ||
    (0x2000 ≤ n && n ≤ 0x200A) || n == 0x2028 || n == 0x2029 || n == 0x202F || n == 0x205F ||
    n == 0x3000

/-- What is left of `cs` once the characters with `isBlank` in front are dropped. -/
def trimStart (cs : List Char) : List Char :=
  cs.dropWhile isBlank

/-- What is left of `cs` once the characters with `isBlank` at the end are dropped. -/
def trimEnd (cs : List Char) : List Char :=
  (cs.reverse.dropWhile isBlank).reverse

/-- What is left of `cs` without the blank characters at both ends: `trimEnd` after `trimStart`. -/
def trim (cs : List Char) : List Char :=
  trimEnd (trimStart cs)

/-- Nothing is dropped from `cs` if its first character does not satisfy `p`. -/
theorem dropWhile_eq_self_of_head {p : Char → Bool} {cs : List Char}
    (h : ∀ c ∈ cs.head?, p c = false) : cs.dropWhile p = cs := by
  cases cs with
  | nil => rfl
  | cons c r => simp [h c rfl]

/-- The character that `List.dropWhile p` stops at does not satisfy `p`. -/
theorem eq_false_of_head?_dropWhile {p : Char → Bool} {cs : List Char} {c : Char}
    (h : (cs.dropWhile p).head? = some c) : p c = false := by
  have hhead := List.head?_dropWhile_not p cs
  rwa [h] at hhead

/-- Nothing is trimmed off `cs` if its last character is not blank. -/
theorem trimEnd_eq_self_of_getLast {cs : List Char}
    (h : ∀ c ∈ cs.getLast?, isBlank c = false) : trimEnd cs = cs := by
  rw [trimEnd, dropWhile_eq_self_of_head, List.reverse_reverse]
  simpa [List.head?_reverse] using h

/-- The equation `trim cs = cs` says that neither end of `cs` is blank. -/
theorem trim_eq_self_iff {cs : List Char} :
    trim cs = cs ↔ (∀ c ∈ cs.head?, isBlank c = false) ∧ ∀ c ∈ cs.getLast?, isBlank c = false := by
  constructor
  · intro h
    have hlen : (trimStart cs).length = cs.length := by
      apply Nat.le_antisymm
      · exact (List.dropWhile_suffix isBlank).length_le
      · have : (trim cs).length ≤ (trimStart cs).length := by
          simpa [trim, trimEnd] using
            (List.dropWhile_suffix (l := (trimStart cs).reverse) isBlank).length_le
        rwa [h] at this
    have hstart : trimStart cs = cs :=
      (List.dropWhile_suffix isBlank).eq_of_length hlen
    have hend : trimEnd cs = cs := by simpa [trim, hstart] using h
    refine ⟨fun c hc => ?_, fun c hc => ?_⟩
    · rw [← hstart] at hc
      exact eq_false_of_head?_dropWhile hc
    · rw [← hend, trimEnd, List.getLast?_reverse] at hc
      exact eq_false_of_head?_dropWhile hc
  · rintro ⟨hhead, hlast⟩
    rw [trim, trimStart, dropWhile_eq_self_of_head hhead, trimEnd_eq_self_of_getLast hlast]

/-! ### Lines and first separators -/

/-- The lines of a text without their ends, which are `\n` or `\r\n`. -/
def lines : List Char → List (List Char)
  | []               => []
  | '\r' :: '\n' :: r => [] :: lines r
  | '\n' :: r         => [] :: lines r
  | c :: r           =>
    match lines r with
    | []      => [[c]]
    | l :: ls => (c :: l) :: ls

/-- The text before and after the first `sep`, or `none` when there is no `sep`. -/
def cutAt (sep : Char) : List Char → Option (List Char × List Char)
  | []     => none
  | c :: r =>
    if c = sep then some ([], r)
    else (cutAt sep r).map fun (before, after) => (c :: before, after)

/-- Only a text without `sep` cannot be cut. -/
theorem cutAt_eq_none_iff {sep : Char} {cs : List Char} : cutAt sep cs = none ↔ sep ∉ cs := by
  induction cs with
  | nil => simp [cutAt]
  | cons c r ih =>
    by_cases h : c = sep
    · simp [cutAt, h]
    · simp [cutAt, h, ih, Ne.symm h]

/-- The text `before` is what stands in front of the first `sep`, and `after` all that follows it.
-/
theorem cutAt_eq_some_iff {sep : Char} {cs before after : List Char} :
    cutAt sep cs = some (before, after) ↔ cs = before ++ sep :: after ∧ sep ∉ before := by
  induction cs generalizing before with
  | nil => simp [cutAt]
  | cons c r ih =>
    by_cases h : c = sep
    · cases before with
      | nil => simp [cutAt, h, eq_comm]
      | cons b bs => simp [cutAt, h]; rintro rfl; simp
    · cases before with
      | nil => simp [cutAt, h]
      | cons b bs =>
        simp only [cutAt, h, if_false, Option.map_eq_some_iff, Prod.exists, Prod.mk.injEq,
          List.cons.injEq, List.cons_append, List.mem_cons, not_or]
        constructor
        · rintro ⟨x, y, hxy, ⟨rfl, rfl⟩, rfl⟩
          obtain ⟨rfl, hn⟩ := ih.1 hxy
          exact ⟨⟨rfl, rfl⟩, Ne.symm h, hn⟩
        · rintro ⟨⟨rfl, rfl⟩, -, hn⟩
          exact ⟨bs, after, ih.2 ⟨rfl, hn⟩, ⟨rfl, rfl⟩, rfl⟩

/-! ### Decimal numerals -/

/-- The decimal digits of `n`, without leading zeros. -/
def natDigits (n : Nat) : List Char :=
  Nat.toDigits 10 n

/-- The digits of a whole number, after `-` when it is negative. -/
def intDigits : Int → List Char
  | .ofNat n   => natDigits n
  | .negSucc n => '-' :: natDigits (n + 1)

/-- The digits `natDigits n` after enough zeros to fill `width`. -/
def paddedDigits (width n : Nat) : List Char :=
  List.replicate (width - (natDigits n).length) '0' ++ natDigits n

/-- The power `10 ^ n`, a one with `n` zeros after it. -/
def tenTo (n : Nat) : Nat :=
  Nat.pow 10 n

/-- The number that a run `cs` of decimal digits denotes. -/
def ofDigits (cs : List Char) : Nat :=
  Nat.ofDigitChars 10 cs 0

/-- What `natDigits n` writes, `ofDigits` reads as `n`. -/
theorem ofDigits_natDigits (n : Nat) : ofDigits (natDigits n) = n :=
  Nat.ofDigitChars_toDigits (by decide) (by decide)

/-- Every character of `natDigits n` is a digit. -/
theorem isDigit_of_mem_natDigits {n : Nat} {c : Char} (h : c ∈ natDigits n) : c.isDigit = true :=
  Nat.isDigit_of_mem_toDigits (by decide) (by decide) h

/-- A number has at least one digit, `0` too. -/
theorem natDigits_ne_nil (n : Nat) : natDigits n ≠ [] :=
  fun h => absurd (congrArg List.length h) (by simp [natDigits])

/-- The digits `cs` in front of `ds` count `tenTo ds.length` each. -/
theorem ofDigits_append (cs ds : List Char) :
    ofDigits (cs ++ ds) = tenTo ds.length * ofDigits cs + ofDigits ds := by
  rw [ofDigits, Nat.ofDigitChars_append, Nat.ofDigitChars_eq_ofDigitChars_zero]
  rfl

end EmulatorSettings.Text
