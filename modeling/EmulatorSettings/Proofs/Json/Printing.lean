import EmulatorSettings.Proofs.Json.Numbers

/-!
# JSON documents — the text that is written

A document of strings and finite numbers is written as a text of the format, and the text says what
the document holds.

* `takeString_flatMap`: a string between its quotes reads back, whatever its characters.
* `readsValue_pretty`: so does a document, in front of any rest that is not more of a number.
* `reads_print`: the text of a document says what the document holds, and nothing else.
-/

namespace EmulatorSettings

open Json (Document)

/-! ### What a document holds -/

/-- A value as a document has it. -/
def Value.document : Value → Document
  | int n   => .number (String.ofList (Text.intDigits n.toInt))
  | float x => .number (String.ofList x.jsonText)
  | text s  => .string s

namespace Json

mutual

/-- The document that the text of `Json` holds. -/
def document : Json → Document
  | scalar v       => v.document
  | object members => .object (documents members)

/-- The members of an object, each with its `document`. -/
def documents : List (String × Json) → List (String × Document)
  | []             => []
  | (name, d) :: r => (name, document d) :: documents r

end

/-- No binary number in the document is an infinity or NaN. -/
inductive Plain : Json → Prop
  | scalar {v : Value} (h : ∀ x, v = .float x → x.isFinite = true) : Plain (scalar v)
  | object {members : List (String × Json)} (h : ∀ m ∈ members, Plain m.2) : Plain (object members)

/-! ### Strings -/

theorem takeString_coded (a b c d : Char) (r : List Char) :
    takeString ('\\' :: 'u' :: a :: b :: c :: d :: r) =
      (coded? a b c d).bind fun x => (takeString r).map fun p => (x :: p.1, p.2) := rfl

/-- A control character `c` is found by the four digits of its code. -/
theorem coded?_hexByte {c : Char} (h : c.toNat < 0x20) :
    coded? '0' '0' (Nat.digitChar (c.toNat / 16)) (Nat.digitChar (c.toNat % 16)) = some c := by
  have hcodes : ∀ n < 0x20, coded? '0' '0' (Nat.digitChar (n / 16)) (Nat.digitChar (n % 16)) =
      some (Char.ofNat n) := by decide
  rw [hcodes _ h, Char.ofNat_toNat]

/-- A character `c` that needs no escape is taken as it stands. -/
theorem takeString_plain {c : Char} (hquote : c ≠ '"') (hbackslash : c ≠ '\\')
    (hcontrol : ¬ c.toNat < 0x20) (r : List Char) :
    takeString (c :: r) = (takeString r).map fun p => (c :: p.1, p.2) := by
  rw [takeString]
  · rw [if_neg (not_or.2 ⟨hbackslash, hcontrol⟩)]
  · exact hquote
  · exact fun _ _ _ _ _ h _ => hbackslash h
  · exact fun _ _ h _ => hbackslash h

/-- **The text `escape c`** is read as the character `c`. -/
theorem takeString_escape (c : Char) (r : List Char) :
    takeString (escape c ++ r) = (takeString r).map fun p => (c :: p.1, p.2) := by
  by_cases hletter : c ∈ ['"', '\\', '\x08', '\t', '\n', '\x0c', '\r']
  · simp only [List.mem_cons, List.not_mem_nil, or_false] at hletter
    rcases hletter with rfl | rfl | rfl | rfl | rfl | rfl | rfl <;> rfl
  · simp only [List.mem_cons, List.not_mem_nil, or_false, not_or] at hletter
    by_cases hcontrol : c.toNat < 0x20
    · have hescape : escape c = ['\\', 'u', '0', '0'] ++ hexByte c.toNat := by
        simp only [escape, hletter, hcontrol, if_false, if_true]
      rw [hescape]
      change takeString ('\\' :: 'u' :: '0' :: '0' :: Nat.digitChar (c.toNat / 16) ::
        Nat.digitChar (c.toNat % 16) :: r) = _
      rw [takeString_coded, coded?_hexByte hcontrol, Option.bind_some]
    · have hescape : escape c = [c] := by
        simp only [escape, hletter, hcontrol, if_false]
      rw [hescape]
      exact takeString_plain hletter.1 hletter.2.1 hcontrol r

/-- **A string `cs`** between its quotes reads back, whatever its characters. -/
theorem takeString_flatMap (cs r : List Char) :
    takeString (cs.flatMap escape ++ '"' :: r) = some (cs, r) := by
  induction cs with
  | nil => rfl
  | cons c cs ih =>
      rw [List.flatMap_cons, List.append_assoc, takeString_escape, ih, Option.map_some]

theorem stringText_append (s : String) (r : List Char) :
    stringText s ++ r = '"' :: (s.toList.flatMap escape ++ '"' :: r) := by
  simp [stringText]

/-! ### Values -/

theorem isSpace_of_inNumber {c : Char} (h : inNumber c = true) : isSpace c = false := by
  rw [Bool.eq_false_iff]
  intro hspace
  simp only [isSpace, Bool.or_eq_true, decide_eq_true_eq] at hspace
  rcases hspace with ((rfl | rfl) | rfl) | rfl <;> cases h

/-- What `ReadsValue` finds in front of `cs` does not begin with a blank. -/
theorem ReadsValue.isSpace_of_head? {cs rest : List Char} {d : Document}
    (h : ReadsValue cs d rest) : ∀ c ∈ cs.head?, isSpace c = false := by
  cases h with
  | number hn =>
      intro c hc
      obtain ⟨r, rfl⟩ := List.head?_eq_some_iff.1 hc
      refine isSpace_of_inNumber ?_
      by_contra hnot
      exact not_isNumber_takeWhile (Bool.eq_false_iff.2 hnot) _ hn
  | string => exact Text.head?_cons_of rfl _
  | empty => exact Text.head?_cons_of rfl _
  | object => exact Text.head?_cons_of rfl _

/-- The `token` of a number is read in front of a `rest` that does not go on with it. -/
theorem readsValue_number {token rest : List Char} (h : IsNumber token)
    (hrest : ∀ c ∈ rest.head?, inNumber c = false) :
    ReadsValue (token ++ rest) (.number (String.ofList token)) rest := by
  have hin : ∀ c ∈ token, inNumber c = true := fun c hc => h.inNumber_of_mem hc
  have htake := Text.takeWhile_append_of_head hin hrest
  have hdrop := Text.dropWhile_append_of_head hin hrest
  have hnumber : ReadsValue (token ++ rest) _ _ := .number (htake.symm ▸ h)
  rwa [htake, hdrop] at hnumber

/-- **A scalar `v`** that is not an infinity or NaN reads back from `scalarText v`. -/
theorem readsValue_scalarText {v : Value} (h : ∀ x, v = .float x → x.isFinite = true)
    {rest : List Char} (hrest : ∀ c ∈ rest.head?, inNumber c = false) :
    ReadsValue (scalarText v ++ rest) v.document rest := by
  cases v with
  | int n => exact readsValue_number (isNumber_intDigits n.toInt) hrest
  | float x =>
      cases x with
      | nan => cases h _ rfl
      | infinity s => cases h _ rfl
      | finite s n => exact readsValue_number ((Binary32.writes_jsonText s n).isNumber) hrest
  | text s =>
      rw [scalarText, stringText_append]
      have hstring := ReadsValue.string (takeString_flatMap s.toList rest)
      rwa [String.ofList_toList] at hstring

/-! ### Members -/

theorem skip_newLine (depth : Nat) {cs : List Char} (hcs : ∀ c ∈ cs.head?, isSpace c = false) :
    skip (newLine depth ++ cs) = cs := by
  refine skip_append (fun c hc => ?_) hcs
  rcases List.mem_cons.1 hc with rfl | hc
  · rfl
  · rw [List.eq_of_mem_replicate hc]
    rfl

theorem takeName_eq {cs r r' r'' name : List Char} (hquote : skip cs = '"' :: r)
    (hname : takeString r = some (name, r')) (hcolon : skip r' = ':' :: r'') :
    takeName cs = some (String.ofList name, skip r'') := by
  rw [takeName, hquote]
  change (takeString r).bind _ = _
  rw [hname, Option.bind_some]
  dsimp only
  rw [hcolon]
  rfl

/-- **The `name` of a member** is read from its own line. -/
theorem takeName_stringText (depth : Nat) (name : String) {cs : List Char}
    (hcs : ∀ c ∈ cs.head?, isSpace c = false) :
    takeName (newLine depth ++ (stringText name ++ ':' :: ' ' :: cs)) = some (name, cs) := by
  have hblank : skip ([' '] ++ cs) = cs := skip_append (List.forall_mem_singleton.2 rfl) hcs
  have hquote : skip (newLine depth ++ (stringText name ++ ':' :: ' ' :: cs)) =
      '"' :: (name.toList.flatMap escape ++ '"' :: ':' :: ' ' :: cs) := by
    rw [stringText_append, skip_newLine depth (Text.head?_cons_of rfl _)]
  rw [takeName_eq hquote (takeString_flatMap _ _) rfl, String.ofList_toList]
  exact congrArg (fun cs => some (name, cs)) hblank

/-! ### Documents -/

/-- What follows a value inside an object is not more of a number: it has no `inNumber`. -/
theorem inNumber_of_skip {cs rest : List Char} {c : Char} (h : skip cs = c :: rest)
    (hc : inNumber c = false) : ∀ x ∈ cs.head?, inNumber x = false := by
  intro x hx
  obtain ⟨r, rfl⟩ := List.head?_eq_some_iff.1 hx
  by_cases hspace : isSpace x = true
  · rw [Bool.eq_false_iff]
    intro hin
    exact absurd (hspace.symm.trans (isSpace_of_inNumber hin)) (by decide)
  · rw [skip, List.dropWhile_cons_of_neg hspace] at h
    rwa [(List.cons.inj h).1]

mutual

/-- **A `Plain` document `d`** reads back from `pretty depth d`, in front of any `rest` that is not
more of a number. -/
theorem readsValue_pretty (depth : Nat) : ∀ {d : Json}, d.Plain → ∀ {rest : List Char},
    (∀ c ∈ rest.head?, inNumber c = false) →
      ReadsValue (pretty depth d ++ rest) d.document rest
  | .scalar v, h, rest, hrest => by
      cases h with
      | scalar hfinite =>
          rw [pretty, document]
          exact readsValue_scalarText hfinite hrest
  | .object [], _, rest, _ => by
      rw [pretty, document, documents]
      exact .empty rfl
  | .object (m :: r), h, rest, _ => by
      cases h with
      | object hmembers =>
          have hend : skip (newLine depth ++ ('\x7d' :: rest)) = '\x7d' :: rest :=
            skip_newLine depth (Text.head?_cons_of rfl rest)
          rw [pretty, document, List.append_assoc, List.append_assoc, List.singleton_append,
            List.cons_append]
          exact .object (readsMembers_pretty (depth + 1) (List.cons_ne_nil m r) hmembers hend)

/-- **The `members` of an object** read back from `prettyMembers depth members`, up to its closing
brace. -/
theorem readsMembers_pretty (depth : Nat) : ∀ {members : List (String × Json)}, members ≠ [] →
    (∀ m ∈ members, Plain m.2) → ∀ {cs rest : List Char}, skip cs = '\x7d' :: rest →
      ReadsMembers (prettyMembers depth members ++ cs) (documents members) rest
  | [], hne, _, _, _, _ => absurd rfl hne
  | [(name, d)], _, h, cs, rest, hcs => by
      have hvalue := readsValue_pretty depth (h _ List.mem_cons_self)
        (inNumber_of_skip hcs (by decide))
      rw [prettyMembers, documents, documents, List.append_assoc, List.append_assoc,
        List.append_assoc]
      exact .last (takeName_stringText depth name hvalue.isSpace_of_head?) hvalue hcs
  | (name, d) :: m :: r, _, h, cs, rest, hcs => by
      have hvalue := readsValue_pretty depth (h _ List.mem_cons_self)
        (Text.head?_cons_of (p := inNumber) (c := ',') rfl (prettyMembers depth (m :: r) ++ cs))
      have hmembers := readsMembers_pretty depth (List.cons_ne_nil m r)
        (fun x hx => h x (List.mem_cons_of_mem _ hx)) hcs
      rw [prettyMembers, documents, List.append_assoc, List.append_assoc, List.append_assoc,
        List.append_assoc, List.cons_append]
      exact .more (takeName_stringText depth name hvalue.isSpace_of_head?) hvalue rfl hmembers

end

/-- **The text of `d`**, as `pretty 0 d` and a line break, says `d.document` and nothing else. -/
theorem reads_print {d : Json} (h : d.Plain) (d' : Document) :
    Reads (String.ofList (pretty 0 d ++ ['\n'])) d' ↔ d' = d.document := by
  have hvalue := readsValue_pretty 0 h (Text.head?_cons_of (p := inNumber) (c := '\n') rfl [])
  have hreads : Reads (String.ofList (pretty 0 d ++ ['\n'])) d.document := by
    refine ⟨['\n'], ?_, rfl⟩
    rwa [String.toList_ofList, skip, Text.dropWhile_eq_self_of_head hvalue.isSpace_of_head?]
  constructor
  · exact fun h' => h'.unique hreads
  · rintro rfl
    exact hreads

end Json

end EmulatorSettings
