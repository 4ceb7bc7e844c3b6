/-!
# TOML — characters and strings

The classes of characters that a document is made of, and the parts that carry no meaning: blanks,
comments and the ends of lines.

A string stands between quotes, one or three of a kind.  Double quotes read escapes, single quotes
do not.  Between three quotes there may be line breaks; a first one does not count, every other
is a line feed, and with escapes a backslash at the end of a line takes away all blanks and line
breaks up to the next word.  Up to two quotes may stand right before the closing three.  Each reader
takes the text after the opening quote and gives the string and what follows it.

A string is written in the plainest `StringForm` of four that can hold it: in double quotes as it
is, in single quotes as it is, in three double quotes or in three single quotes.  Where none of
them holds it as it is, it is written between double quotes with escapes, three of them if it has a
line break.  A form of three quotes opens with a line break of its own if the string has one.

* `length_dropBlank_le`: `dropBlank` gives back no more than it was given.
* `escape?_length_lt`: `escape?` takes at least one character.
-/

namespace EmulatorSettings.Toml

/-! ### Characters -/

/-- Whether `c` is a blank within a line, a space or a tab. -/
def isBlank (c : Char) : Bool :=
  c = ' ' || c = '\t'

/-- Whether `c` is a control character other than the tab.  These stand for themselves neither in
strings nor in comments. -/
def isControl (c : Char) : Bool :=
  (c.toNat < 0x20 && c ≠ '\t') || c = '\x7f'

/-- Whether `c` may stand in a key without quotes. -/
def isBareKeyChar (c : Char) : Bool :=
  c.isAlphanum || c = '-' || c = '_'

/-- What follows the blanks, as `isBlank` has them. -/
def dropBlank (cs : List Char) : List Char :=
  cs.dropWhile isBlank

/-- What follows a comment, from `#` on, if there is one. -/
def dropComment : List Char → List Char
  | '#' :: r => r.dropWhile fun c => !isControl c
  | cs       => cs

/-- What follows the end of a line: `\n`, or `\r\n`.  The end of the document ends a line too. -/
def lineEnd? : List Char → Option (List Char)
  | []                => some []
  | '\n' :: r         => some r
  | '\r' :: '\n' :: r => some r
  | _                 => none

/-- What follows the rest of a line that says nothing more: blanks, a comment, and `lineEnd?`. -/
def lineRest? (cs : List Char) : Option (List Char) :=
  lineEnd? (dropComment (dropBlank cs))

/-- What follows blanks, comments and line ends.  The flag tells whether a comment is open; a
character with `isControl` ends the gap there. -/
def dropGap : Bool → List Char → List Char
  | _, []                => []
  | _, '\n' :: r         => dropGap false r
  | _, '\r' :: '\n' :: r => dropGap false r
  | true, c :: r         => if isControl c then c :: r else dropGap true r
  | false, c :: r        =>
    if isBlank c then dropGap false r else if c = '#' then dropGap true r else c :: r

/-- What `dropBlank` passes over is never given back. -/
theorem length_dropBlank_le (cs : List Char) : (dropBlank cs).length ≤ cs.length :=
  (List.dropWhile_suffix isBlank).length_le

/-! ### Strings -/

/-- The value of the digit `c`, sixteen to the place. -/
def hexValue? (c : Char) : Option Nat :=
  if c.isDigit then some (c.toNat - '0'.toNat)
  else if 'a' ≤ c ∧ c ≤ 'f' then some (c.toNat - 'a'.toNat + 10)
  else if 'A' ≤ c ∧ c ≤ 'F' then some (c.toNat - 'A'.toNat + 10)
  else none

/-- The number that so many digits denote, on top of the ones before them; `none` if `hexValue?`
fails for one. -/
def hexNumber? : Nat → Nat → List Char → Option (Nat × List Char)
  | 0, n, r             => some (n, r)
  | _ + 1, _, []        => none
  | count + 1, n, c :: r => (hexValue? c).bind fun d => hexNumber? count (16 * n + d) r

/-- The character with a code point of `count` digits. -/
def codePoint? (count : Nat) (cs : List Char) : Option (Char × List Char) :=
  (hexNumber? count 0 cs).bind fun (n, r) => if n.isValidChar then some (Char.ofNat n, r) else none

/-- The character that an escape stands for, after its backslash; `codePoint?` reads `u` and `U`. -/
def escape? : List Char → Option (Char × List Char)
  | 'b' :: r  => some ('\x08', r)
  | 't' :: r  => some ('\t', r)
  | 'n' :: r  => some ('\n', r)
  | 'f' :: r  => some ('\x0c', r)
  | 'r' :: r  => some ('\r', r)
  | '"' :: r  => some ('"', r)
  | '\\' :: r => some ('\\', r)
  | 'u' :: r  => codePoint? 4 r
  | 'U' :: r  => codePoint? 8 r
  | _         => none

/-- What follows the digits is no longer than `cs`. -/
theorem hexNumber?_length_le {count n n' : Nat} {cs r : List Char}
    (h : hexNumber? count n cs = some (n', r)) : r.length ≤ cs.length := by
  induction count generalizing n cs with
  | zero => simp_all [hexNumber?]
  | succ count ih =>
    cases cs with
    | nil => simp [hexNumber?] at h
    | cons c cs =>
      simp only [hexNumber?, Option.bind_eq_some_iff] at h
      obtain ⟨d, -, hd⟩ := h
      exact Nat.le_succ_of_le (ih hd)

/-- What follows a code point is no longer than `cs`. -/
theorem codePoint?_length_le {count : Nat} {cs r : List Char} {c : Char}
    (h : codePoint? count cs = some (c, r)) : r.length ≤ cs.length := by
  simp only [codePoint?, Option.bind_eq_some_iff] at h
  obtain ⟨⟨n, r'⟩, hn, hr⟩ := h
  split at hr
  · exact (Prod.mk.inj (Option.some.inj hr)).2 ▸ hexNumber?_length_le hn
  · simp at hr

/-- What follows an escape is shorter than `cs`, so `basic?` ends. -/
theorem escape?_length_lt {cs r : List Char} {c : Char} (h : escape? cs = some (c, r)) :
    r.length < cs.length := by
  unfold escape? at h
  split at h
  case h_8 => exact Nat.lt_succ_of_le (codePoint?_length_le h)
  case h_9 => exact Nat.lt_succ_of_le (codePoint?_length_le h)
  all_goals simp_all

/-- A string in double quotes, after the first, with `escape?` for what follows a backslash. -/
def basic? : List Char → Option (List Char × List Char)
  | []        => none
  | '"' :: r  => some ([], r)
  | '\\' :: r =>
    match h : escape? r with
    | none         => none
    | some (c, r') =>
      have := escape?_length_lt h
      (basic? r').map fun (s, rest) => (c :: s, rest)
  | c :: r    =>
    if isControl c then none else (basic? r).map fun (s, rest) => (c :: s, rest)
termination_by cs => cs.length
decreasing_by all_goals grind

/-- A string in single quotes, after the first; what it says is what stands there, `\` too. -/
def literal? : List Char → Option (List Char × List Char)
  | []        => none
  | '\'' :: r => some ([], r)
  | c :: r    =>
    if isControl c then none else (literal? r).map fun (s, rest) => (c :: s, rest)

/-- What follows the blanks and line breaks after a `\` at the end of a line; `none` where there is
more on the line. -/
def continued? (cs : List Char) : Option (List Char) :=
  match dropBlank cs with
  | '\n' :: r         => some (dropGaps r)
  | '\r' :: '\n' :: r => some (dropGaps r)
  | _                 => none
where
  /-- What follows blanks and line breaks. -/
  dropGaps : List Char → List Char
    | '\r' :: '\n' :: r => dropGaps r
    | c :: r            => if isBlank c || c = '\n' then dropGaps r else c :: r
    | []                => []

/-- What `continued?.dropGaps` passes over is never given back. -/
theorem length_dropGaps_le (cs : List Char) : (continued?.dropGaps cs).length ≤ cs.length := by
  fun_induction continued?.dropGaps cs <;> grind

/-- What follows the end of a continued line is shorter than `cs`, so `multilineBasic?` ends. -/
theorem continued?_length_lt {cs r : List Char} (h : continued? cs = some r) :
    r.length < cs.length := by
  have hb := length_dropBlank_le cs
  unfold continued? at h
  split at h
  all_goals
    first
    | (next r' hr =>
        have := length_dropGaps_le r'
        grind)
    | simp at h

/-- A string in three double quotes, after the opening, with `escape?` and `continued?` for what
follows a backslash. -/
def multilineBasic? : List Char → Option (List Char × List Char)
  | []                                 => none
  | '"' :: '"' :: '"' :: '"' :: '"' :: r => some (['"', '"'], r)
  | '"' :: '"' :: '"' :: '"' :: r      => some (['"'], r)
  | '"' :: '"' :: '"' :: r             => some ([], r)
  | '\r' :: '\n' :: r                  =>
    (multilineBasic? r).map fun (s, rest) => ('\n' :: s, rest)
  | '\\' :: r                          =>
    match h : continued? r with
    | some r' =>
      have := continued?_length_lt h
      multilineBasic? r'
    | none    =>
      match h : escape? r with
      | none         => none
      | some (c, r') =>
        have := escape?_length_lt h
        (multilineBasic? r').map fun (s, rest) => (c :: s, rest)
  | c :: r                             =>
    if isControl c ∧ c ≠ '\n' then none
    else (multilineBasic? r).map fun (s, rest) => (c :: s, rest)
termination_by cs => cs.length
decreasing_by all_goals grind

/-- A string in three single quotes, after the opening; what it says is what stands there, `\` too.
-/
def multilineLiteral? : List Char → Option (List Char × List Char)
  | []                                      => none
  | '\'' :: '\'' :: '\'' :: '\'' :: '\'' :: r => some (['\'', '\''], r)
  | '\'' :: '\'' :: '\'' :: '\'' :: r       => some (['\''], r)
  | '\'' :: '\'' :: '\'' :: r               => some ([], r)
  | '\r' :: '\n' :: r                       =>
    (multilineLiteral? r).map fun (s, rest) => ('\n' :: s, rest)
  | c :: r                                  =>
    if isControl c ∧ c ≠ '\n' then none
    else (multilineLiteral? r).map fun (s, rest) => (c :: s, rest)

/-- A text without the line break, `\n` or `\r\n`, at its start. -/
def dropOpening : List Char → List Char
  | '\n' :: r         => r
  | '\r' :: '\n' :: r => r
  | cs                => cs

/-- A string with its delimiters, and what follows it: three quotes of a kind are tried before one.
-/
def string? : List Char → Option (List Char × List Char)
  | '"' :: '"' :: '"' :: r    => multilineBasic? (dropOpening r)
  | '"' :: r                  => basic? r
  | '\'' :: '\'' :: '\'' :: r => multilineLiteral? (dropOpening r)
  | '\'' :: r                 => literal? r
  | _                         => none

/-! ### Writing -/

/-- How a string is delimited, and whether it holds escapes (`basic`) or not (`literal`). -/
inductive StringForm where
  | basic
  | literal
  | multilineBasic
  | multilineLiteral
  deriving DecidableEq

/-- Whether `q` stands three times in a row. -/
def hasTriple (q : Char) : List Char → Bool
  | []     => false
  | c :: r => (c = q && r.take 2 = [q, q]) || hasTriple q r

/-- Whether `c` must be escaped, in whatever form it stands; a line feed need not. -/
def needsEscape (c : Char) : Bool :=
  isControl c && c ≠ '\n'

/-- The form that the string `cs` is written in, the plainest that can hold it. -/
def StringForm.of (cs : List Char) : StringForm :=
  if cs.any needsEscape then (if '\n' ∈ cs then multilineBasic else basic)
  else if '\\' ∉ cs ∧ '"' ∉ cs ∧ '\n' ∉ cs then basic
  else if '\'' ∉ cs ∧ '\n' ∉ cs then literal
  else if '\\' ∉ cs ∧ hasTriple '"' cs = false then multilineBasic
  else if hasTriple '\'' cs = false then multilineLiteral
  else if '\n' ∈ cs then multilineBasic
  else basic

/-- The digit `n` of a code point, sixteen to the place, in upper case. -/
def hexDigit (n : Nat) : Char :=
  (Nat.digitChar n).toUpper

/-- The character `c` as it is written where escapes are read.  The tab has an escape too. -/
def escape (c : Char) : List Char :=
  if c = '\x08' then ['\\', 'b']
  else if c = '\t' then ['\\', 't']
  else if c = '\n' then ['\\', 'n']
  else if c = '\x0c' then ['\\', 'f']
  else if c = '\r' then ['\\', 'r']
  else if c = '"' then ['\\', '"']
  else if c = '\\' then ['\\', '\\']
  else if isControl c then ['\\', 'u', '0', '0', hexDigit (c.toNat / 16), hexDigit (c.toNat % 16)]
  else [c]

/-- The inside of a string over several lines, after a `run` of so many unescaped quotes.  Line
breaks stand for themselves, and so do quotes unless they would be the third in a row. -/
def multilineBody (run : Nat) : List Char → List Char
  | []     => []
  | c :: r =>
    if c = '"' ∧ run < 2 then c :: multilineBody (run + 1) r
    else if c = '\n' then c :: multilineBody 0 r
    else escape c ++ multilineBody 0 r

/-- The line break that opens a string over several lines, if `cs` has one itself. -/
def opening (cs : List Char) : List Char :=
  if '\n' ∈ cs then ['\n'] else []

/-- The string `cs` with its delimiters, in the form `StringForm.of cs`. -/
def writtenChars (cs : List Char) : List Char :=
  match StringForm.of cs with
  | .basic            => '"' :: cs.flatMap escape ++ ['"']
  | .literal          => '\'' :: cs ++ ['\'']
  | .multilineBasic   => ['"', '"', '"'] ++ opening cs ++ multilineBody 0 cs ++ ['"', '"', '"']
  | .multilineLiteral => ['\'', '\'', '\''] ++ opening cs ++ cs ++ ['\'', '\'', '\'']

end EmulatorSettings.Toml
