import EmulatorSettings.Json.Text
import EmulatorSettings.Proofs.Text.Digits

/-!
# JSON documents — what a text says

The grammar of the format, for texts without arrays, without the words `true`, `false` and `null`,
and without characters that are spelled by two codes.  Blanks may stand around every token.  A
number is kept as the token that it is, since what it is worth is up to who reads it; a string is
kept as the characters that its escapes stand for.

* `ReadsValue`, `ReadsMembers`: what stands in front of a text, and what is left of it.
* `Reads.unique`: a text says one thing at most.
-/

namespace EmulatorSettings.Json

open Text (AllDigits)

/-- A JSON document as its text has it: a number is its token. -/
inductive Document where
  | number (token : String)
  | string (content : String)
  | object (members : List (String × Document))

namespace Document

/-- The value of the first member called `name`, if the document is an object. -/
def member? (name : String) : Document → Option Document
  | object members => (members.find? fun m => m.1 == name).map (·.2)
  | _              => none

/-- The names of the members, if the document is an object. -/
def names : Document → List String
  | object members => members.map (·.1)
  | _              => []

end Document

/-! ### Blanks -/

/-- The four characters that may stand between tokens. -/
def isSpace (c : Char) : Bool :=
  c = ' ' || c = '\t' || c = '\n' || c = '\r'

/-- The text `cs` without the characters with `isSpace` in front. -/
def skip (cs : List Char) : List Char :=
  cs.dropWhile isSpace

theorem skip_append {spaces cs : List Char} (hs : ∀ c ∈ spaces, isSpace c = true)
    (hcs : ∀ c ∈ cs.head?, isSpace c = false) : skip (spaces ++ cs) = cs := by
  rw [skip, Text.dropWhile_append_of_head hs hcs]

/-! ### Numbers -/

/-- The whole part of a number: digits, the first of which is no zero unless it is the only one. -/
structure Whole (cs : List Char) : Prop where
  all : AllDigits cs
  ne_nil : cs ≠ []
  no_zero : cs.head? = some '0' → cs = ['0']

/-- The fraction of a number: `.` and digits, or nothing. -/
def Fraction (cs : List Char) : Prop :=
  cs = [] ∨ ∃ digits, cs = '.' :: digits ∧ AllDigits digits ∧ digits ≠ []

/-- The power of ten of a number: `e` or `E`, a sign or none, and digits; or nothing. -/
def Exponent (cs : List Char) : Prop :=
  cs = [] ∨ ∃ mark sign digits, cs = mark :: (sign ++ digits) ∧ mark ∈ ['e', 'E'] ∧
    sign ∈ [[], ['+'], ['-']] ∧ AllDigits digits ∧ digits ≠ []

/-- **The token of a number**: a `-` or none, then `Whole`, `Fraction` and `Exponent`. -/
def IsNumber (token : List Char) : Prop :=
  ∃ sign whole fraction exponent, token = sign ++ (whole ++ (fraction ++ exponent)) ∧
    sign ∈ [[], ['-']] ∧ Whole whole ∧ Fraction fraction ∧ Exponent exponent

/-- Whether `c` may stand in the token of a number. -/
def inNumber (c : Char) : Bool :=
  c.isDigit || c = '-' || c = '+' || c = '.' || c = 'e' || c = 'E'

theorem inNumber_of_isDigit {c : Char} (h : c.isDigit = true) : inNumber c = true := by
  simp only [inNumber, h, Bool.true_or]

namespace IsNumber

variable {token : List Char}

theorem ne_nil (h : IsNumber token) : token ≠ [] := by
  obtain ⟨sign, whole, fraction, exponent, rfl, -, hwhole, -⟩ := h
  exact List.append_ne_nil_of_right_ne_nil _ (List.append_ne_nil_of_left_ne_nil hwhole.ne_nil _)

/-- All characters of a number have `inNumber`. -/
theorem inNumber_of_mem (h : IsNumber token) {c : Char} (hc : c ∈ token) : inNumber c = true := by
  obtain ⟨sign, whole, fraction, exponent, rfl, hsign, hwhole, hfraction, hexponent⟩ := h
  have hdigits : ∀ {ds : List Char}, AllDigits ds → c ∈ ds → inNumber c = true :=
    fun hds hc => inNumber_of_isDigit (hds c hc)
  have hsigns : ∀ {cs : List Char}, cs ∈ [[], ['+'], ['-']] → c ∈ cs → inNumber c = true := by
    simp only [List.mem_cons, List.not_mem_nil, or_false]
    rintro cs (rfl | rfl | rfl) hc
    · cases hc
    · rw [List.mem_singleton.1 hc]
      rfl
    · rw [List.mem_singleton.1 hc]
      rfl
  simp only [List.mem_append] at hc
  obtain hc | hc | hc | hc := hc
  · refine hsigns ?_ hc
    simp only [List.mem_cons, List.not_mem_nil, or_false] at hsign ⊢
    exact hsign.imp_right .inr
  · exact hdigits hwhole.all hc
  · obtain rfl | ⟨digits, rfl, hd, -⟩ := hfraction
    · cases hc
    · rcases List.mem_cons.1 hc with rfl | hc
      · rfl
      · exact hdigits hd hc
  · obtain rfl | ⟨mark, sign, digits, rfl, hmark, hsign, hd, -⟩ := hexponent
    · cases hc
    · rcases List.mem_cons.1 hc with rfl | hc
      · simp only [List.mem_cons, List.not_mem_nil, or_false] at hmark
        rcases hmark with rfl | rfl <;> rfl
      · exact (List.mem_append.1 hc).elim (hsigns hsign) (hdigits hd)

end IsNumber

/-! ### Strings -/

/-- What the digit `c` counts in base 16. -/
def hexDigit? (c : Char) : Option Nat :=
  if c.isDigit then some (c.toNat - 48)
  else if 'a' ≤ c ∧ c ≤ 'f' then some (c.toNat - 87)
  else if 'A' ≤ c ∧ c ≤ 'F' then some (c.toNat - 55)
  else none

/-- The character whose code in base 16 has the digits `a`, `b`, `c` and `d`.  Halves of a pair,
from `0xD800` to `0xDFFF`, are not characters. -/
def coded? (a b c d : Char) : Option Char := do
  let n := 0x1000 * (← hexDigit? a) + 0x100 * (← hexDigit? b) + 0x10 * (← hexDigit? c) +
    (← hexDigit? d)
  if 0xD800 ≤ n ∧ n < 0xE000 then none else some (Char.ofNat n)

/-- The character that a letter after `\` stands for. -/
def unescape? : Char → Option Char
  | '"'  => some '"'
  | '\\' => some '\\'
  | '/'  => some '/'
  | 'b'  => some '\x08'
  | 'f'  => some '\x0c'
  | 'n'  => some '\n'
  | 'r'  => some '\r'
  | 't'  => some '\t'
  | _    => none

/-- The characters of a string up to its closing quote, and the rest. -/
def takeString : List Char → Option (List Char × List Char)
  | []                                  => none
  | '"' :: r                            => some ([], r)
  | '\\' :: 'u' :: a :: b :: c :: d :: r =>
    (coded? a b c d).bind fun x => (takeString r).map fun p => (x :: p.1, p.2)
  | '\\' :: e :: r                      =>
    (unescape? e).bind fun x => (takeString r).map fun p => (x :: p.1, p.2)
  | c :: r                              =>
    if c = '\\' ∨ c.toNat < 0x20 then none else (takeString r).map fun p => (c :: p.1, p.2)

/-! ### Values -/

/-- The name of a member and its colon, with the blanks around them, and the rest. -/
def takeName (cs : List Char) : Option (String × List Char) :=
  match skip cs with
  | '"' :: r =>
    (takeString r).bind fun (name, r) =>
      match skip r with
      | ':' :: r => some (String.ofList name, skip r)
      | _        => none
  | _        => none

mutual

/-- **A value in front of a text** `cs`, as a document, and the rest of the text. -/
inductive ReadsValue : List Char → Document → List Char → Prop
  | number {cs : List Char} (h : IsNumber (cs.takeWhile inNumber)) :
      ReadsValue cs (.number (String.ofList (cs.takeWhile inNumber))) (cs.dropWhile inNumber)
  | string {cs s rest : List Char} (h : takeString cs = some (s, rest)) :
      ReadsValue ('"' :: cs) (.string (String.ofList s)) rest
  | empty {cs rest : List Char} (h : skip cs = '\x7d' :: rest) :
      ReadsValue ('\x7b' :: cs) (.object []) rest
  | object {cs rest : List Char} {members : List (String × Document)}
      (h : ReadsMembers cs members rest) : ReadsValue ('\x7b' :: cs) (.object members) rest

/-- **Members in front of a text** `cs`, up to the closing brace, and the rest of the text. -/
inductive ReadsMembers : List Char → List (String × Document) → List Char → Prop
  | last {cs r r' rest : List Char} {name : String} {d : Document}
      (hname : takeName cs = some (name, r)) (hvalue : ReadsValue r d r')
      (hend : skip r' = '\x7d' :: rest) : ReadsMembers cs [(name, d)] rest
  | more {cs r r' r'' rest : List Char} {name : String} {d : Document}
      {members : List (String × Document)}
      (hname : takeName cs = some (name, r)) (hvalue : ReadsValue r d r')
      (hcomma : skip r' = ',' :: r'') (hmembers : ReadsMembers r'' members rest) :
      ReadsMembers cs ((name, d) :: members) rest

end

/-- **What `text` says**: one value `d`, with nothing but blanks around it. -/
def Reads (text : String) (d : Document) : Prop :=
  ∃ rest, ReadsValue (skip text.toList) d rest ∧ skip rest = []

/-! ### One thing at most -/

theorem takeName_of_brace {cs rest : List Char} (h : skip cs = '\x7d' :: rest) :
    takeName cs = none := by
  rw [takeName, h]
  rfl

/-- A number begins with no character without `inNumber`. -/
theorem not_isNumber_takeWhile {c : Char} (h : inNumber c = false) (cs : List Char) :
    ¬ IsNumber ((c :: cs).takeWhile inNumber) := fun hn => by
  rw [List.takeWhile_cons_of_neg (by rw [h]; exact Bool.false_ne_true)] at hn
  exact hn.ne_nil rfl

theorem ReadsMembers.exists_takeName {cs rest : List Char} {members : List (String × Document)}
    (h : ReadsMembers cs members rest) : ∃ p, takeName cs = some p := by
  cases h with
  | last hname _ _ => exact ⟨_, hname⟩
  | more hname _ _ _ => exact ⟨_, hname⟩

mutual

/-- **A value in front of `cs`**, by `ReadsValue`, is the only one. -/
theorem ReadsValue.unique {cs rest rest' : List Char} {d d' : Document}
    (h : ReadsValue cs d rest) (h' : ReadsValue cs d' rest') : d = d' ∧ rest = rest' := by
  cases h with
  | number hn =>
      cases h' with
      | number => exact ⟨rfl, rfl⟩
      | string => exact absurd hn (not_isNumber_takeWhile (by decide) _)
      | empty => exact absurd hn (not_isNumber_takeWhile (by decide) _)
      | object => exact absurd hn (not_isNumber_takeWhile (by decide) _)
  | string hs =>
      cases h' with
      | number hn => exact absurd hn (not_isNumber_takeWhile (by decide) _)
      | string hs' =>
          obtain ⟨rfl, rfl⟩ := Prod.mk.inj (Option.some.inj (hs.symm.trans hs'))
          exact ⟨rfl, rfl⟩
  | empty hb =>
      cases h' with
      | number hn => exact absurd hn (not_isNumber_takeWhile (by decide) _)
      | empty hb' => exact ⟨rfl, (List.cons.inj (hb.symm.trans hb')).2⟩
      | object hm =>
          obtain ⟨p, hp⟩ := hm.exists_takeName
          exact absurd ((takeName_of_brace hb).symm.trans hp) nofun
  | object hm =>
      cases h' with
      | number hn => exact absurd hn (not_isNumber_takeWhile (by decide) _)
      | empty hb =>
          obtain ⟨p, hp⟩ := hm.exists_takeName
          exact absurd ((takeName_of_brace hb).symm.trans hp) nofun
      | object hm' =>
          obtain ⟨rfl, rfl⟩ := hm.unique hm'
          exact ⟨rfl, rfl⟩

/-- **Members in front of `cs`**, by `ReadsMembers`, are the only ones. -/
theorem ReadsMembers.unique {cs rest rest' : List Char}
    {members members' : List (String × Document)} (h : ReadsMembers cs members rest)
    (h' : ReadsMembers cs members' rest') :
    members = members' ∧ rest = rest' := by
  cases h with
  | last hname hvalue hend =>
      cases h' with
      | last hname' hvalue' hend' =>
          obtain ⟨rfl, rfl⟩ := Prod.mk.inj (Option.some.inj (hname.symm.trans hname'))
          obtain ⟨rfl, rfl⟩ := hvalue.unique hvalue'
          exact ⟨rfl, (List.cons.inj (hend.symm.trans hend')).2⟩
      | more hname' hvalue' hcomma' _ =>
          obtain ⟨rfl, rfl⟩ := Prod.mk.inj (Option.some.inj (hname.symm.trans hname'))
          obtain ⟨rfl, rfl⟩ := hvalue.unique hvalue'
          exact absurd (List.cons.inj (hend.symm.trans hcomma')).1 (by decide)
  | more hname hvalue hcomma hmembers =>
      cases h' with
      | last hname' hvalue' hend' =>
          obtain ⟨rfl, rfl⟩ := Prod.mk.inj (Option.some.inj (hname.symm.trans hname'))
          obtain ⟨rfl, rfl⟩ := hvalue.unique hvalue'
          exact absurd (List.cons.inj (hcomma.symm.trans hend')).1 (by decide)
      | more hname' hvalue' hcomma' hmembers' =>
          obtain ⟨rfl, rfl⟩ := Prod.mk.inj (Option.some.inj (hname.symm.trans hname'))
          obtain ⟨rfl, rfl⟩ := hvalue.unique hvalue'
          obtain ⟨-, rfl⟩ := List.cons.inj (hcomma.symm.trans hcomma')
          obtain ⟨rfl, rfl⟩ := hmembers.unique hmembers'
          exact ⟨rfl, rfl⟩

end

/-- **A `text` says one thing** at most. -/
theorem Reads.unique {text : String} {d d' : Document} (h : Reads text d) (h' : Reads text d') :
    d = d' := by
  obtain ⟨rest, hvalue, -⟩ := h
  obtain ⟨rest', hvalue', -⟩ := h'
  exact (hvalue.unique hvalue').1

end EmulatorSettings.Json
