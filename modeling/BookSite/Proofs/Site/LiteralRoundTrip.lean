import BookSite.Proofs.Site.LiteralReader
import BookSite.Proofs.Text.Blanks
import BookSite.Proofs.Text.Digits
import BookSite.Proofs.Text.Scanning

/-!
# Proofs/Site/LiteralRoundTrip — literals are read as they are written

Every part of a literal is read back with whatever follows it: a character of a string with its
escape, a string with its quotes, a word up to a character that cannot continue it, and the parts of
a list or an object one line after another.  So a value without floating point numbers is read from
its literal, and two such values never have the same literal (`literals_read_back`).
-/

namespace BookSite.Site

/-! ## Strings -/

/-- **How a character of a string is written**: with an escape of one letter, with its number, or as
it is when that is read as itself. -/
theorem scriptEscape_cases (c : Char) :
    (∃ letter, scriptEscape c = ['\\', letter] ∧ letterEscape? letter = some c) ∨
      scriptEscape c = '\\' :: 'u' :: '{' :: (Nat.toDigits 16 c.toNat ++ ['}']) ∨
      scriptEscape c = [c] ∧ c ≠ '\\' ∧ c ≠ '\'' ∧ c ≠ '\n' ∧ c ≠ '\r' := by
  unfold scriptEscape
  split
  · exact .inl ⟨_, rfl, rfl⟩
  · exact .inl ⟨_, rfl, rfl⟩
  · exact .inl ⟨_, rfl, rfl⟩
  · exact .inl ⟨_, rfl, rfl⟩
  · exact .inl ⟨_, rfl, rfl⟩
  · rename_i hbackslash hquote hfeed hreturn htab
    split
    · exact .inr (.inl rfl)
    · exact .inr (.inr ⟨rfl, hbackslash, hquote, hfeed, hreturn⟩)

theorem hexChar?_toDigits (c : Char) : hexChar? (Nat.toDigits 16 c.toNat) = some c := by
  have hvalid : c.toNat.isValidChar := c.valid
  simp [hexChar?, Json.hexNumber?_toDigits, Nat.toDigits_ne_nil, hvalid]

theorem escape?_of_letterEscape? {letter c : Char} (h : letterEscape? letter = some c)
    (rest : Text) : escape? (letter :: rest) = some (c, 2) := by
  unfold escape?
  split
  · rename_i heq
    cases heq
    cases h
  · rename_i heq
    cases heq
    rw [h]
    rfl
  · rename_i heq
    cases heq

theorem escape?_number (c : Char) (rest : Text) :
    escape? ('u' :: '{' :: (Nat.toDigits 16 c.toNat ++ '}' :: rest)) =
      some (c, (Nat.toDigits 16 c.toNat).length + 4) := by
  have hclose : '}' ∉ Nat.toDigits 16 c.toNat :=
    Json.not_mem_of_hexNumber? (by decide) (Json.hexNumber?_toDigits c.toNat)
  simp [escape?, Text.takeWhile_bne_append hclose, hexChar?_toDigits]

/-- A character is read from what it is written as. -/
theorem stringChar?_scriptEscape (c : Char) (rest : Text) :
    stringChar? (scriptEscape c ++ rest) = some (c, (scriptEscape c).length) := by
  obtain ⟨letter, hwritten, hletter⟩ | hwritten | ⟨hwritten, hbackslash, hquote, hfeed, hreturn⟩ :=
    scriptEscape_cases c
  · rw [hwritten]
    exact escape?_of_letterEscape? hletter rest
  · rw [hwritten]
    simpa [stringChar?] using escape?_number c rest
  · rw [hwritten]
    unfold stringChar?
    split
    · rename_i heq
      cases heq
      exact absurd rfl hbackslash
    · rename_i heq
      cases heq
      simp [hquote, hfeed, hreturn]
    · rename_i heq
      cases heq

/-- Passing over characters of an escape is dropping them. -/
theorem readStringFrom?_eq_drop (skip : Nat) (t : Text) :
    readStringFrom? skip t = readStringFrom? 0 (t.drop skip) := by
  induction t generalizing skip with
  | nil => simp [readStringFrom?]
  | cons c rest ih =>
    cases skip with
    | zero => rfl
    | succ skip => simpa [readStringFrom?] using ih skip

/-- One character of a string is read, and then the others. -/
theorem readStringFrom?_scriptEscape (c : Char) (rest : Text) :
    readStringFrom? 0 (scriptEscape c ++ rest) =
      (readStringFrom? 0 rest).map fun (s, behind) => (c :: s, behind) := by
  have hchar := stringChar?_scriptEscape c rest
  obtain ⟨d, more, hwritten⟩ : ∃ d more, scriptEscape c = d :: more := by
    obtain ⟨_, h, -⟩ | h | ⟨h, -⟩ := scriptEscape_cases c <;> exact ⟨_, _, h⟩
  rw [hwritten, List.cons_append] at hchar ⊢
  have hquote : d ≠ '\'' := by
    rintro rfl
    cases hchar
  rw [readStringFrom?, if_neg hquote, hchar]
  simp only [List.length_cons, Nat.add_sub_cancel]
  rw [readStringFrom?_eq_drop, List.drop_left]

/-- **A string is read up to its closing quote.** -/
theorem readStringFrom?_flatMap (s rest : Text) :
    readStringFrom? 0 (s.flatMap scriptEscape ++ '\'' :: rest) = some (s, rest) := by
  induction s with
  | nil => rfl
  | cons c s ih =>
    rw [List.flatMap_cons, List.append_assoc, readStringFrom?_scriptEscape, ih]
    rfl

/-! ## Words -/

/-- No word goes on at the front of the text. -/
def EndsWord (rest : Text) : Prop := ∀ c ∈ rest.head?, isIdentifierChar c = false

section Words

variable {word rest : Text} (hword : ∀ c ∈ word, isIdentifierChar c = true)

include hword

theorem word_append_ne_cons (hne : word ≠ []) {c : Char} (hc : isIdentifierChar c = false)
    (more : Text) : word ++ rest ≠ c :: more := by
  obtain ⟨d, word, rfl⟩ := List.exists_cons_of_ne_nil hne
  rintro heq
  obtain ⟨rfl, -⟩ := List.cons_eq_cons.mp heq
  have hd := hword d List.mem_cons_self
  rw [hc] at hd
  cases hd

variable (hrest : EndsWord rest)

include hrest

theorem takeWhile_word : (word ++ rest).takeWhile isIdentifierChar = word := by
  rw [List.takeWhile_append_of_pos hword]
  cases rest with
  | nil => simp
  | cons c rest => simp [hrest c rfl]

theorem dropWhile_word : (word ++ rest).dropWhile isIdentifierChar = rest := by
  rw [List.dropWhile_append_of_pos hword]
  cases rest with
  | nil => rfl
  | cons c rest => simp [hrest c rfl]

/-- **A word is read up to what ends it.** -/
theorem readScalar?_word {v : Json} (hvalue : wordValue? word = some v) :
    readScalar? (word ++ rest) = some (v, rest) := by
  have hne : word ≠ [] := by
    rintro rfl
    cases hvalue
  unfold readScalar?
  split
  · rename_i heq
    exact absurd heq (word_append_ne_cons hword hne (by decide) _)
  · rw [takeWhile_word hword hrest, dropWhile_word hword hrest, hvalue]
    rfl

end Words

theorem isIdentifierChar_of_mem_ofNat {n : Nat} {c : Char} (h : c ∈ Text.ofNat n) :
    isIdentifierChar c = true := by
  simp [isIdentifierChar, Char.isAlphanum, Text.isDigit_of_mem_ofNat h]

/-- An integer is read up to what ends it. -/
theorem readScalar?_ofInt (n : Int) {rest : Text} (hrest : EndsWord rest) :
    readScalar? (Text.ofInt n ++ rest) = some (.integer n, rest) := by
  have hdigits : ∀ m, ∀ c ∈ Text.ofNat m, isIdentifierChar c = true := fun m c hc =>
    isIdentifierChar_of_mem_ofNat hc
  cases n with
  | ofNat n => exact readScalar?_word (hdigits n) hrest (by simp [wordValue?, Text.toNat?_ofNat])
  | negSucc n =>
    simp [Text.ofInt, readScalar?, takeWhile_word (hdigits (n + 1)) hrest,
      dropWhile_word (hdigits (n + 1)) hrest, Text.toNat?_ofNat, Int.negSucc_eq]

/-! ## Names -/

theorem isIdentifierChar_of_isScriptIdentifier {name : Text}
    (h : isScriptIdentifier name = true) : ∀ c ∈ name, isIdentifierChar c = true := by
  cases name with
  | nil => cases h
  | cons c rest =>
    rw [isScriptIdentifier, Bool.and_eq_true, List.all_eq_true] at h
    obtain ⟨hstart, hrest⟩ := h
    intro d hd
    rcases List.mem_cons.mp hd with rfl | hd
    · simp only [isIdentifierStart, isIdentifierChar, Char.isAlphanum] at hstart ⊢
      grind
    · exact hrest d hd

theorem ne_nil_of_isScriptIdentifier {name : Text} (h : isScriptIdentifier name = true) :
    name ≠ [] := by
  rintro rfl
  cases h

/-- **A name is read up to what ends it.** -/
theorem readName?_scriptName (name : Text) {rest : Text} (hrest : EndsWord rest) :
    readName? (scriptName name ++ rest) = some (name, rest) := by
  unfold scriptName
  split
  · rename_i hname
    have hchars := isIdentifierChar_of_isScriptIdentifier hname
    unfold readName?
    split
    · rename_i heq
      have hne := ne_nil_of_isScriptIdentifier hname
      exact absurd heq (word_append_ne_cons hchars hne (by decide) _)
    · simp [takeWhile_word hchars hrest, dropWhile_word hchars hrest, hname]
  · simpa [scriptQuote, readName?] using readStringFrom?_flatMap name rest

/-! ## First characters -/

/-- Whether a word or an integer may begin with `c`. -/
def isScalarStart (c : Char) : Bool := isIdentifierChar c || c == '-'

/-- Whether a literal or the name of a field may begin with `c`. -/
def isPartStart (c : Char) : Bool := isScalarStart c || c == '\'' || c == '[' || c == '{'

/-- A literal or the name of a field may stand at the front of the text. -/
def StartsPart (t : Text) : Prop := ∃ c rest, t = c :: rest ∧ isPartStart c = true

theorem StartsPart.append {t : Text} (h : StartsPart t) (rest : Text) : StartsPart (t ++ rest) := by
  obtain ⟨c, more, rfl, hc⟩ := h
  exact ⟨c, more ++ rest, rfl, hc⟩

theorem startsPart_word {word : Text} (hword : ∀ c ∈ word, isIdentifierChar c = true)
    (hne : word ≠ []) : StartsPart word := by
  obtain ⟨c, word, rfl⟩ := List.exists_cons_of_ne_nil hne
  exact ⟨c, word, rfl, by simp [isPartStart, isScalarStart, hword c List.mem_cons_self]⟩

theorem exists_scalarStart_ofInt (n : Int) :
    ∃ c rest, Text.ofInt n = c :: rest ∧ isScalarStart c = true := by
  cases n with
  | ofNat n =>
    obtain ⟨c, rest, hwritten⟩ := List.exists_cons_of_ne_nil (Text.ofNat_ne_nil n)
    have hmem : c ∈ Text.ofNat n := by rw [hwritten]; exact List.mem_cons_self
    have hc := isIdentifierChar_of_mem_ofNat hmem
    exact ⟨c, rest, hwritten, by simp [isScalarStart, hc]⟩
  | negSucc n => exact ⟨'-', _, rfl, rfl⟩

theorem startsPart_ofInt (n : Int) : StartsPart (Text.ofInt n) := by
  obtain ⟨c, rest, hwritten, hc⟩ := exists_scalarStart_ofInt n
  exact ⟨c, rest, hwritten, by simp [isPartStart, hc]⟩

theorem startsPart_scriptQuote (s : Text) : StartsPart (scriptQuote s) := ⟨'\'', _, rfl, rfl⟩

theorem startsPart_scriptName (name : Text) : StartsPart (scriptName name) := by
  unfold scriptName
  split
  · rename_i hname
    exact startsPart_word (isIdentifierChar_of_isScriptIdentifier hname)
      (ne_nil_of_isScriptIdentifier hname)
  · exact startsPart_scriptQuote name

theorem startsPart_bracketed {open_ close_ : Char} (h : isPartStart open_ = true) (depth : Nat)
    (parts : List Text) : StartsPart (Json.bracketed open_ close_ depth parts) := by
  unfold Json.bracketed
  split
  · exact ⟨open_, _, rfl, h⟩
  · exact ⟨open_, _, rfl, h⟩

/-! ## Blanks -/

theorem skipBlanks_cons {c : Char} (hc : isPartStart c = true) (rest : Text) :
    Json.skipBlanks (c :: rest) = c :: rest := by
  refine List.dropWhile_cons_of_neg ?_
  intro hblank
  simp only [Bool.or_eq_true, beq_iff_eq] at hblank
  rcases hblank with ((rfl | rfl) | rfl) | rfl <;> cases hc

theorem StartsPart.skipBlanks_eq {t : Text} (h : StartsPart t) : Json.skipBlanks t = t := by
  obtain ⟨c, rest, rfl, hc⟩ := h
  exact skipBlanks_cons hc rest

/-- The indentation of a line does not matter. -/
theorem skipBlanks_line (depth : Nat) (t : Text) :
    Json.skipBlanks ('\n' :: (Json.indent depth ++ t)) = Json.skipBlanks t := by
  have hspaces : ∀ c ∈ Json.indent depth, c = ' ' := by
    simp [Json.indent, Text.replicate]
  have hblank : ∀ c ∈ '\n' :: Json.indent depth,
      (c == ' ' || c == '\n' || c == '\t' || c == '\r') = true := by
    intro c hc
    rcases List.mem_cons.mp hc with rfl | hc
    · rfl
    · rw [hspaces c hc]
      rfl
  rw [← List.cons_append]
  exact List.dropWhile_append_of_pos hblank

/-! ## The parts of a list or an object -/

/-- What follows a part on its line and on the lines below it, up to the closing bracket. -/
def behindPart (close_ : Char) (depth : Nat) : List Text → Text
  | [] => '\n' :: (Json.indent depth ++ [close_])
  | part :: parts =>
    ',' :: '\n' :: (Json.indent (depth + 1) ++ (part ++ behindPart close_ depth parts))

theorem joinWith_append_closing (close_ : Char) (depth : Nat) (part : Text) (parts : List Text) :
    Text.joinWith [',', '\n'] ((part :: parts).map (Json.indent (depth + 1) ++ ·)) ++
        '\n' :: (Json.indent depth ++ [close_]) =
      Json.indent (depth + 1) ++ (part ++ behindPart close_ depth parts) := by
  induction parts generalizing part with
  | nil => simp [Text.joinWith, behindPart]
  | cons next parts ih =>
    rw [List.map_cons, List.map_cons, Text.joinWith, List.intercalate_cons_cons, ← List.map_cons,
      List.append_assoc, List.append_assoc, List.append_assoc]
    simpa [Text.joinWith, behindPart] using ih next

theorem bracketed_cons (open_ close_ : Char) (depth : Nat) (part : Text) (parts : List Text) :
    Json.bracketed open_ close_ depth (part :: parts) =
      open_ :: '\n' :: (Json.indent (depth + 1) ++ (part ++ behindPart close_ depth parts)) := by
  rw [← joinWith_append_closing]
  simp [Json.bracketed]

theorem endsWord_behindPart (close_ : Char) (depth : Nat) (parts : List Text) (rest : Text) :
    EndsWord (behindPart close_ depth parts ++ rest) := by
  cases parts with
  | nil => rintro c ⟨⟩; rfl
  | cons part parts => rintro c ⟨⟩; rfl

theorem length_lt_behindPart (close_ : Char) (depth : Nat) (parts : List Text) :
    parts.length < (behindPart close_ depth parts).length := by
  induction parts with
  | nil => simp [behindPart]
  | cons part parts ih =>
    simp only [behindPart, List.length_cons, List.length_append]
    omega

theorem length_lt_behindPart_of_mem {close_ : Char} {depth : Nat} {part : Text} {parts : List Text}
    (h : part ∈ parts) : part.length < (behindPart close_ depth parts).length := by
  induction parts with
  | nil => cases h
  | cons first parts ih =>
    simp only [behindPart, List.length_cons, List.length_append]
    rcases List.mem_cons.mp h with rfl | h
    · omega
    · have := ih h
      omega

/-- Every part is shorter than the whole. -/
theorem length_lt_bracketed {open_ close_ : Char} {depth : Nat} {part : Text} {parts : List Text}
    (h : part ∈ parts) : part.length < (Json.bracketed open_ close_ depth parts).length := by
  cases parts with
  | nil => cases h
  | cons first parts =>
    rw [bracketed_cons]
    simp only [List.length_cons, List.length_append]
    rcases List.mem_cons.mp h with rfl | h
    · omega
    · have hpart : part.length < (behindPart close_ depth parts).length :=
        length_lt_behindPart_of_mem h
      omega

section Parts

variable {α : Type} {part? : Text → Option (α × Text)} {write : α → Text} {close_ : Char}
  (hclose : close_ = ']' ∨ close_ = '}')

include hclose

theorem skipBlanks_closing (rest : Text) : Json.skipBlanks (close_ :: rest) = close_ :: rest := by
  rcases hclose with rfl | rfl <;> rfl

/-- One part is read, and then what follows it decides. -/
theorem readParts?_of_startsPart {t behind : Text} {a : α} (ht : StartsPart t)
    (hpart : part? t = some (a, behind)) (bound depth : Nat) :
    readParts? part? close_ (bound + 1) ('\n' :: (Json.indent depth ++ t)) =
      match Json.skipBlanks behind with
      | [] => none
      | d :: rest =>
        if d = close_ then some ([a], rest)
        else if d = ',' then
          (readParts? part? close_ bound rest).map fun (parts, rest) => (a :: parts, rest)
        else none := by
  rw [readParts?, skipBlanks_line, ht.skipBlanks_eq]
  obtain ⟨c, more, rfl, hc⟩ := ht
  have hne : c ≠ close_ := by
    rintro rfl
    rcases hclose with rfl | rfl <;> cases hc
  simp only [if_neg hne, hpart]
  rfl

/-- **The parts are read one line after another.** -/
theorem readParts?_lines (depth : Nat) {a : α} {parts : List α}
    (hstart : ∀ b ∈ a :: parts, StartsPart (write b))
    (hpart : ∀ b ∈ a :: parts, ∀ rest, EndsWord rest → part? (write b ++ rest) = some (b, rest))
    {bound : Nat} (hbound : parts.length < bound) (rest : Text) :
    readParts? part? close_ bound ('\n' :: (Json.indent (depth + 1) ++
      (write a ++ (behindPart close_ depth (parts.map write) ++ rest)))) =
        some (a :: parts, rest) := by
  induction parts generalizing a bound with
  | nil =>
    obtain ⟨bound, rfl⟩ := Nat.exists_eq_succ_of_ne_zero (Nat.ne_of_gt hbound)
    rw [readParts?_of_startsPart hclose ((hstart a List.mem_cons_self).append _)
      (hpart a List.mem_cons_self _ (endsWord_behindPart _ _ _ _))]
    simp [behindPart, skipBlanks_line, skipBlanks_closing hclose]
  | cons b parts ih =>
    -- A comma follows the first part, and behind it the lines of the others begin.
    obtain ⟨bound, rfl⟩ := Nat.exists_eq_succ_of_ne_zero (Nat.ne_zero_of_lt hbound)
    have hothers := ih (fun c hc => hstart c (List.mem_cons_of_mem a hc))
      (fun c hc => hpart c (List.mem_cons_of_mem a hc)) (Nat.lt_of_succ_lt_succ hbound)
    have hcomma : ',' ≠ close_ := by
      rcases hclose with rfl | rfl <;> decide
    rw [readParts?_of_startsPart hclose ((hstart a List.mem_cons_self).append _)
      (hpart a List.mem_cons_self _ (endsWord_behindPart _ _ _ _))]
    simp only [List.map_cons, behindPart, List.cons_append, List.append_assoc]
    have hskip : ∀ t, Json.skipBlanks (',' :: t) = ',' :: t := fun _ => rfl
    rw [hskip]
    simp only [if_neg hcomma, if_true, hothers, Option.map_some]

/-- **A list or an object is read behind its opening bracket.** -/
theorem readParts?_bracketed (open_ : Char) (depth : Nat) {parts : List α}
    (hstart : ∀ a ∈ parts, StartsPart (write a))
    (hpart : ∀ a ∈ parts, ∀ rest, EndsWord rest → part? (write a ++ rest) = some (a, rest))
    (rest : Text) :
    ∃ t, Json.bracketed open_ close_ depth (parts.map write) ++ rest = open_ :: t ∧
      readParts? part? close_ t.length t = some (parts, rest) := by
  cases parts with
  | nil =>
    refine ⟨close_ :: rest, rfl, ?_⟩
    rw [List.length_cons, readParts?, skipBlanks_closing hclose]
    exact if_pos rfl
  | cons a parts =>
    have hlength := length_lt_behindPart close_ depth (parts.map write)
    rw [List.map_cons, bracketed_cons, List.cons_append, List.cons_append, List.append_assoc,
      List.append_assoc]
    refine ⟨_, rfl, readParts?_lines hclose depth hstart hpart ?_ rest⟩
    simp only [List.length_cons, List.length_append, List.length_map] at hlength ⊢
    omega

end Parts

/-! ## Values -/

/-- Every number of the value is an integer. -/
inductive IntegersOnly : Json → Prop
  | null : IntegersOnly .null
  | bool (b : Bool) : IntegersOnly (.bool b)
  | integer (n : Int) : IntegersOnly (.integer n)
  | string (s : Text) : IntegersOnly (.string s)
  | array {items : List Json} (h : ∀ v ∈ items, IntegersOnly v) : IntegersOnly (.array items)
  | object {fields : List (Text × Json)} (h : ∀ field ∈ fields, IntegersOnly field.2) :
    IntegersOnly (.object fields)

/-- A field as a literal. -/
def literalField (depth : Nat) (field : Text × Json) : Text :=
  scriptName field.1 ++ ':' :: ' ' :: scriptLiteral depth field.2

theorem literalItems_eq_map (depth : Nat) (items : List Json) :
    literalItems depth items = items.map (scriptLiteral depth) := by
  induction items with
  | nil => rfl
  | cons v items ih => rw [literalItems, ih, List.map_cons]

theorem literalFields_eq_map (depth : Nat) (fields : List (Text × Json)) :
    literalFields depth fields = fields.map (literalField depth) := by
  induction fields with
  | nil => rfl
  | cons field fields ih => rw [literalFields, ih, List.map_cons, literalField]

theorem scriptLiteral_array (depth : Nat) (items : List Json) :
    scriptLiteral depth (.array items) =
      Json.bracketed '[' ']' depth (items.map (scriptLiteral (depth + 1))) := by
  rw [scriptLiteral, literalItems_eq_map]

theorem scriptLiteral_object (depth : Nat) (fields : List (Text × Json)) :
    scriptLiteral depth (.object fields) =
      Json.bracketed '{' '}' depth (fields.map (literalField (depth + 1))) := by
  rw [scriptLiteral, literalFields_eq_map]

theorem IntegersOnly.startsPart {v : Json} (hv : IntegersOnly v) (depth : Nat) :
    StartsPart (scriptLiteral depth v) := by
  cases hv with
  | null => exact ⟨'n', _, rfl, rfl⟩
  | bool b => cases b <;> exact ⟨_, _, rfl, rfl⟩
  | integer n => exact startsPart_ofInt n
  | string s => exact startsPart_scriptQuote s
  | array _ =>
    rw [scriptLiteral_array]
    exact startsPart_bracketed rfl _ _
  | object _ =>
    rw [scriptLiteral_object]
    exact startsPart_bracketed rfl _ _

theorem readValue?_quote (fuel : Nat) (t : Text) :
    readValue? (fuel + 1) ('\'' :: t) =
      (readStringFrom? 0 t).map fun (s, behind) => (.string s, behind) := rfl

theorem readValue?_list (fuel : Nat) (t : Text) :
    readValue? (fuel + 1) ('[' :: t) =
      (readParts? (readValue? fuel) ']' t.length t).map fun (items, behind) =>
        (.array items, behind) := rfl

theorem readValue?_object (fuel : Nat) (t : Text) :
    readValue? (fuel + 1) ('{' :: t) =
      (readParts? (readField? (readValue? fuel)) '}' t.length t).map fun (fields, behind) =>
        (.object fields, behind) := rfl

theorem readValue?_space (fuel : Nat) (t : Text) :
    readValue? fuel (' ' :: t) = readValue? fuel t := by
  cases fuel with
  | zero => rfl
  | succ fuel => rfl

theorem readValue?_scalar {c : Char} (hc : isScalarStart c = true) (fuel : Nat) (rest : Text) :
    readValue? (fuel + 1) (c :: rest) = readScalar? (c :: rest) := by
  have hstart : isPartStart c = true := by simp [isPartStart, hc]
  rw [readValue?, skipBlanks_cons hstart]
  split
  · rename_i heq
    cases heq
    cases hc
  · rename_i heq
    cases heq
    cases hc
  · rename_i heq
    cases heq
    cases hc
  · rfl

theorem readValue?_word {word : Text} (hword : ∀ c ∈ word, isIdentifierChar c = true) {v : Json}
    (hvalue : wordValue? word = some v) (fuel : Nat) {rest : Text} (hrest : EndsWord rest) :
    readValue? (fuel + 1) (word ++ rest) = some (v, rest) := by
  have hread := readScalar?_word hword hrest hvalue
  cases word with
  | nil => cases hvalue
  | cons c word =>
    have hc : isScalarStart c = true := by simp [isScalarStart, hword c List.mem_cons_self]
    rw [List.cons_append] at hread ⊢
    rw [readValue?_scalar hc, hread]

theorem readValue?_ofInt (n : Int) (fuel : Nat) {rest : Text} (hrest : EndsWord rest) :
    readValue? (fuel + 1) (Text.ofInt n ++ rest) = some (.integer n, rest) := by
  obtain ⟨c, more, hwritten, hc⟩ := exists_scalarStart_ofInt n
  have hread := readScalar?_ofInt n hrest
  rw [hwritten, List.cons_append] at hread ⊢
  rw [readValue?_scalar hc, hread]

theorem readValue?_scriptQuote (s : Text) (fuel : Nat) (rest : Text) :
    readValue? (fuel + 1) (scriptQuote s ++ rest) = some (.string s, rest) := by
  rw [scriptQuote, List.append_assoc, List.cons_append, readValue?_quote, List.singleton_append,
    readStringFrom?_flatMap]
  rfl

/-- A field is read when its value is. -/
theorem readField?_literalField {value? : Text → Option (Json × Text)} {depth : Nat}
    {field : Text × Json} {rest : Text}
    (hvalue : value? (' ' :: (scriptLiteral depth field.2 ++ rest)) = some (field.2, rest)) :
    readField? value? (literalField depth field ++ rest) = some (field, rest) := by
  have hends : EndsWord (':' :: ' ' :: (scriptLiteral depth field.2 ++ rest)) := by
    rintro c ⟨⟩
    rfl
  have hcolon : Text.behind? (Json.skipBlanks (':' :: ' ' :: (scriptLiteral depth field.2 ++ rest)))
      [':'] = some (' ' :: (scriptLiteral depth field.2 ++ rest)) := rfl
  rw [literalField, List.append_assoc, List.cons_append, List.cons_append, readField?,
    readName?_scriptName field.1 hends]
  simp [hcolon, hvalue]

/-- **A value is read from its literal**, whatever follows that. -/
theorem readValue?_scriptLiteral {v : Json} (hv : IntegersOnly v) {fuel depth : Nat}
    (hfuel : (scriptLiteral depth v).length ≤ fuel) {rest : Text} (hrest : EndsWord rest) :
    readValue? fuel (scriptLiteral depth v ++ rest) = some (v, rest) := by
  -- The bound goes down by one at each bracket, and every part is shorter than the whole.
  induction fuel generalizing v depth rest with
  | zero =>
    obtain ⟨c, more, hwritten, -⟩ := hv.startsPart depth
    simp [hwritten] at hfuel
  | succ fuel ih =>
    cases hv with
    | null => exact @readValue?_word "null".toList (List.all_eq_true.mp rfl) _ rfl fuel _ hrest
    | bool b =>
      cases b with
      | false => exact @readValue?_word "false".toList (List.all_eq_true.mp rfl) _ rfl fuel _ hrest
      | true => exact @readValue?_word "true".toList (List.all_eq_true.mp rfl) _ rfl fuel _ hrest
    | integer n => exact readValue?_ofInt n fuel hrest
    | string s => exact readValue?_scriptQuote s fuel rest
    | @array items h =>
      rw [scriptLiteral_array] at hfuel ⊢
      have hitem : ∀ v ∈ items, ∀ rest, EndsWord rest →
          readValue? fuel (scriptLiteral (depth + 1) v ++ rest) = some (v, rest) := by
        intro v hv rest hrest
        have hlength := (length_lt_bracketed (List.mem_map_of_mem hv)).trans_le hfuel
        exact ih (h v hv) (Nat.le_of_lt_succ hlength) hrest
      obtain ⟨t, ht, hread⟩ := readParts?_bracketed (.inl rfl) '[' depth
        (fun v hv => (h v hv).startsPart (depth + 1)) hitem rest
      rw [ht, readValue?_list, hread]
      rfl
    | @object fields h =>
      rw [scriptLiteral_object] at hfuel ⊢
      have hfield : ∀ field ∈ fields, ∀ rest, EndsWord rest →
          readField? (readValue? fuel) (literalField (depth + 1) field ++ rest) =
            some (field, rest) := by
        intro field hmem rest hrest
        have hlength := (length_lt_bracketed (List.mem_map_of_mem hmem)).trans_le hfuel
        refine readField?_literalField ?_
        rw [readValue?_space]
        refine ih (h field hmem) (le_trans ?_ (Nat.le_of_lt_succ hlength)) hrest
        simp only [literalField, List.length_append, List.length_cons]
        omega
      obtain ⟨t, ht, hread⟩ := readParts?_bracketed (.inr rfl) '{' depth
        (fun field _ => (startsPart_scriptName field.1).append _) hfield rest
      rw [ht, readValue?_object, hread]
      rfl

/-- **Literals are read back**: the reader takes the whole literal of a value at any depth and gives
the value with its fields in their order, so different values have different literals. -/
theorem literals_read_back :
    (∀ v, IntegersOnly v → ∀ depth, readLiteral? (scriptLiteral depth v) = some (v, [])) ∧
      ∀ v w, IntegersOnly v → IntegersOnly w → ∀ depth,
        scriptLiteral depth v = scriptLiteral depth w → v = w := by
  have hread : ∀ v, IntegersOnly v → ∀ depth,
      readLiteral? (scriptLiteral depth v) = some (v, []) := by
    intro v hv depth
    have hends : EndsWord [] := by rintro c ⟨⟩
    have hvalue := readValue?_scriptLiteral hv (Nat.le_refl (scriptLiteral depth v).length) hends
    rwa [List.append_nil] at hvalue
  refine ⟨hread, fun v w hv hw depth heq => ?_⟩
  have hsame := hread w hw depth
  rw [← heq, hread v hv depth] at hsame
  cases hsame
  rfl

/-- A bell, a quote and a name with a blank are read back, and a string that holds the text between
two strings is not taken for them. -/
theorem literals_read_back_quotedTexts :
    readLiteral? (scriptLiteral 1 (.object
        [("title".toList, .ofString "Ferris'\x07\n"), ("a b".toList, .array [.integer (-2), .null]),
          ("".toList, .array [])])) =
      some (.object
        [("title".toList, .ofString "Ferris'\x07\n"), ("a b".toList, .array [.integer (-2), .null]),
          ("".toList, .array [])], []) ∧
    scriptLiteral 0 (.array [.ofString "a", .ofString "b"]) ≠
      scriptLiteral 0 (.array [.ofString "a',\n  'b"]) := by
  constructor
  · refine literals_read_back.1 _ (.object ?_) 1
    simp [Json.ofString, IntegersOnly.string, IntegersOnly.array, IntegersOnly.integer,
      IntegersOnly.null]
  · intro heq
    have hsame := literals_read_back.2 _ _ (.array (by simp [Json.ofString, IntegersOnly.string]))
      (.array (by simp [Json.ofString, IntegersOnly.string])) 0 heq
    simp at hsame

end BookSite.Site
