import BookSite.Proofs.Site.LiteralRoundTrip

/-!
# Proofs/Site/LiteralLines — the lines of a literal

A literal is broken into lines by its layout alone: strings, names and numbers hold no line feed
(`newline_not_mem_scriptQuote`, `exists_scriptLiteral_of_scalar`).  So how many lines there are
depends on the lists and objects only, and a literal that stands deeper is the same text with more
blanks behind each line feed (`literals_indent_uniformly`).
-/

namespace BookSite

/-! ## Texts that stand deeper -/

namespace Text

/-- **The text `columns` deeper**: as many blanks more behind each of its line feeds. -/
def deepen (columns : Nat) (t : Text) : Text :=
  t.flatMap fun c => if c = '\n' then c :: List.replicate columns ' ' else [c]

variable {columns : Nat}

@[simp] theorem deepen_append (s t : Text) :
    deepen columns (s ++ t) = deepen columns s ++ deepen columns t := List.flatMap_append

theorem deepen_cons_newline (t : Text) :
    deepen columns ('\n' :: t) = '\n' :: (List.replicate columns ' ' ++ deepen columns t) := rfl

theorem deepen_cons_of_ne {c : Char} (h : c ≠ '\n') (t : Text) :
    deepen columns (c :: t) = c :: deepen columns t := by
  rw [deepen, List.flatMap_cons, if_neg h]
  rfl

/-- A text without line feed stays as it is. -/
theorem deepen_of_newline_not_mem {t : Text} (h : '\n' ∉ t) : deepen columns t = t := by
  induction t with
  | nil => rfl
  | cons c t ih =>
    rw [List.mem_cons, not_or] at h
    rw [deepen_cons_of_ne (Ne.symm h.1), ih h.2]

end Text

/-! ## Values and their parts -/

/-- **Induction on values**: what holds of all values without parts, and of a list or an object when
it holds of its parts, holds of all values. -/
theorem Json.induction {P : Json → Prop} (scalar : ∀ v, v.scalar?.isSome → P v)
    (array : ∀ items, (∀ v ∈ items, P v) → P (.array items))
    (object : ∀ fields, (∀ field ∈ fields, P field.2) → P (.object fields)) : ∀ v, P v
  | .null | .bool _ | .integer _ | .float _ | .string _ => scalar _ rfl
  | .array items => array items fun v _ => Json.induction scalar array object v
  | .object fields => object fields fun (_, v) _ => Json.induction scalar array object v
termination_by v => sizeOf v
decreasing_by
  · have hsize := List.sizeOf_lt_of_mem ‹v ∈ items›
    rw [Json.array.sizeOf_spec]
    omega
  · rename_i name hmem
    have hsize := List.sizeOf_lt_of_mem hmem
    rw [Prod.mk.sizeOf_spec] at hsize
    rw [Json.object.sizeOf_spec]
    omega

/-! ## Numbers -/

namespace FloatLayout

theorem newline_not_mem_pointed {digits : Text} (h : '\n' ∉ digits) (n : Nat) :
    '\n' ∉ pointed n digits := by
  have htake : '\n' ∉ digits.take n := fun hmem => h (List.mem_of_mem_take hmem)
  have hdrop : '\n' ∉ digits.drop n := fun hmem => h (List.mem_of_mem_drop hmem)
  simp [pointed, htake, hdrop]

/-- **Numbers hold no line feed** when their exponents do not. -/
theorem newline_not_mem_write {layout : FloatLayout} (h : '\n' ∉ layout.exponentPlus)
    (x : Binary64) : '\n' ∉ layout.write x := by
  have hdigits := Text.newline_not_mem_ofNat
  have hpointed : ∀ n m, '\n' ∉ pointed n (Text.ofNat m) := fun n m =>
    newline_not_mem_pointed (hdigits m) n
  have hzeros : ∀ n, '\n' ∉ Text.replicate n ['0'] := by simp [Text.replicate]
  have hdecimal : ∀ d, '\n' ∉ layout.layOut d := by
    intro d
    simp only [layOut]
    split_ifs <;> simp [hdigits, hpointed, hzeros, h]
  cases x with
  | nan => simp [write]
  | infinity negative => cases negative <;> simp [write]
  | finite negative m q =>
    rw [write]
    split_ifs <;> simp [hdecimal]

end FloatLayout

namespace Site

/-! ## Parts without line feed -/

theorem newline_not_mem_scriptEscape (c : Char) : '\n' ∉ scriptEscape c := by
  obtain ⟨letter, hwritten, hletter⟩ | hwritten | ⟨hwritten, -, -, hfeed, -⟩ :=
    scriptEscape_cases c
  · have hne : letter ≠ '\n' := by
      rintro rfl
      cases hletter
    simp [hwritten, hne.symm]
  · have hnumber : '\n' ∉ Nat.toDigits 16 c.toNat :=
      Json.not_mem_of_hexNumber? (by decide) (Json.hexNumber?_toDigits c.toNat)
    simp [hwritten, hnumber]
  · simp [hwritten, hfeed.symm]

/-- **A string never breaks a line**, whatever it holds. -/
theorem newline_not_mem_scriptQuote (s : Text) : '\n' ∉ scriptQuote s := by
  simp [scriptQuote, newline_not_mem_scriptEscape]

/-- **A name never breaks a line**, whatever it holds. -/
theorem newline_not_mem_scriptName (name : Text) : '\n' ∉ scriptName name := by
  unfold scriptName
  split
  · rename_i hname
    exact fun hmem => absurd (isIdentifierChar_of_isScriptIdentifier hname _ hmem) (by decide)
  · exact newline_not_mem_scriptQuote name

/-- **A value without parts** is on one line, the same at all depths. -/
theorem exists_scriptLiteral_of_scalar {v : Json} (h : v.scalar?.isSome) :
    ∃ t, '\n' ∉ t ∧ ∀ depth, scriptLiteral depth v = t := by
  cases v with
  | null => exact ⟨"null".toList, by decide, fun _ => rfl⟩
  | bool b => exact ⟨_, by cases b <;> decide, fun _ => rfl⟩
  | integer n =>
    refine ⟨Text.ofInt n, ?_, fun _ => rfl⟩
    cases n <;> simp [Text.ofInt, Text.newline_not_mem_ofNat]
  | float x => exact ⟨_, FloatLayout.newline_not_mem_write (by decide) x, fun _ => rfl⟩
  | string s => exact ⟨_, newline_not_mem_scriptQuote s, fun _ => rfl⟩
  | array _ => cases h
  | object _ => cases h

/-! ## Parts on their lines -/

theorem indent_eq_replicate (depth : Nat) : Json.indent depth = List.replicate (2 * depth) ' ' := by
  induction depth with
  | zero => rfl
  | succ depth ih =>
    have hsucc : Json.indent (depth + 1) = ' ' :: ' ' :: Json.indent depth := rfl
    rw [hsucc, ih, Nat.mul_succ]
    rfl

section Brackets

variable {open_ close_ : Char} {more depth : Nat}

/-- The indentation of a line grows by the columns of the levels. -/
theorem deepen_line (t : Text) :
    Text.deepen (2 * more) ('\n' :: (Json.indent depth ++ t)) =
      '\n' :: (Json.indent (depth + more) ++ Text.deepen (2 * more) t) := by
  have hspaces : '\n' ∉ Json.indent depth := by simp [indent_eq_replicate]
  rw [Text.deepen_cons_newline, Text.deepen_append, Text.deepen_of_newline_not_mem hspaces,
    indent_eq_replicate, indent_eq_replicate, ← List.append_assoc, List.replicate_append_replicate,
    ← Nat.mul_add, Nat.add_comm]

variable (hclose : close_ ≠ '\n')

include hclose

theorem deepen_behindPart (parts : List Text) :
    Text.deepen (2 * more) (behindPart close_ depth parts) =
      behindPart close_ (depth + more) (parts.map (Text.deepen (2 * more))) := by
  induction parts with
  | nil =>
    rw [behindPart, deepen_line, Text.deepen_cons_of_ne hclose]
    rfl
  | cons part parts ih =>
    -- The parts stand one level deeper than the bracket that closes them.
    rw [behindPart, Text.deepen_cons_of_ne (by decide), deepen_line, Text.deepen_append, ih,
      List.map_cons, behindPart, Nat.add_right_comm]

/-- **Parts between brackets stand deeper** when the brackets do. -/
theorem deepen_bracketed (hopen : open_ ≠ '\n') (parts : List Text) :
    Text.deepen (2 * more) (Json.bracketed open_ close_ depth parts) =
      Json.bracketed open_ close_ (depth + more) (parts.map (Text.deepen (2 * more))) := by
  cases parts with
  | nil =>
    have hempty : '\n' ∉ [open_, close_] := by simp [hopen.symm, hclose.symm]
    exact Text.deepen_of_newline_not_mem hempty
  | cons part parts =>
    rw [bracketed_cons, Text.deepen_cons_of_ne hopen, deepen_line, Text.deepen_append,
      deepen_behindPart hclose, List.map_cons, bracketed_cons, Nat.add_right_comm]

end Brackets

/-! ## Line breaks -/

/-- The line breaks of a list or an object whose parts have the given ones: one behind the opening
bracket and one behind each part, unless there is no part. -/
def breaksAround (parts : List Nat) : Nat :=
  if parts.isEmpty then 0 else parts.foldr (fun breaks more => breaks + 1 + more) 1

mutual

/-- **The line breaks of the layout of a value.** -/
def lineBreaks : Json → Nat
  | .array items => breaksAround (itemBreaks items)
  | .object fields => breaksAround (fieldBreaks fields)
  | _ => 0

/-- The line breaks of each item of a list. -/
def itemBreaks : List Json → List Nat
  | [] => []
  | v :: rest => lineBreaks v :: itemBreaks rest

/-- The line breaks of each field of an object. -/
def fieldBreaks : List (Text × Json) → List Nat
  | [] => []
  | (_, v) :: rest => lineBreaks v :: fieldBreaks rest

end

theorem itemBreaks_eq_map (items : List Json) : itemBreaks items = items.map lineBreaks := by
  induction items with
  | nil => rfl
  | cons v items ih => rw [itemBreaks, ih, List.map_cons]

theorem fieldBreaks_eq_map (fields : List (Text × Json)) :
    fieldBreaks fields = fields.map fun field => lineBreaks field.2 := by
  induction fields with
  | nil => rfl
  | cons field fields ih => rw [fieldBreaks, ih, List.map_cons]

theorem lineBreaks_of_scalar {v : Json} (h : v.scalar?.isSome) : lineBreaks v = 0 := by
  cases v with
  | array _ => cases h
  | object _ => cases h
  | _ => rw [lineBreaks] <;> simp

section Brackets

variable {open_ close_ : Char} {depth : Nat} (hclose : close_ ≠ '\n')

theorem count_newline_line (t : Text) :
    ('\n' :: (Json.indent depth ++ t)).count '\n' = t.count '\n' + 1 := by
  simp [indent_eq_replicate, List.count_replicate]

include hclose

theorem count_newline_behindPart (parts : List Text) :
    (behindPart close_ depth parts).count '\n' =
      (parts.map (List.count '\n')).foldr (fun breaks more => breaks + 1 + more) 1 := by
  induction parts with
  | nil =>
    rw [behindPart, count_newline_line, List.count_singleton, beq_false_of_ne hclose]
    rfl
  | cons part parts ih =>
    rw [behindPart, List.count_cons_of_ne (by decide), count_newline_line, List.count_append, ih,
      List.map_cons, List.foldr_cons, Nat.add_right_comm]

/-- **The line breaks of parts between brackets.** -/
theorem count_newline_bracketed (hopen : open_ ≠ '\n') (parts : List Text) :
    (Json.bracketed open_ close_ depth parts).count '\n' =
      breaksAround (parts.map (List.count '\n')) := by
  cases parts with
  | nil =>
    have hempty : '\n' ∉ [open_, close_] := by simp [hopen.symm, hclose.symm]
    exact List.count_eq_zero.mpr hempty
  | cons part parts =>
    rw [bracketed_cons, List.count_cons_of_ne hopen, count_newline_line, List.count_append,
      count_newline_behindPart hclose, Nat.add_right_comm]
    rfl

end Brackets

/-! ## Literals -/

theorem deepen_literalField {more depth : Nat} {field : Text × Json}
    (h : Text.deepen (2 * more) (scriptLiteral depth field.2) =
      scriptLiteral (depth + more) field.2) :
    Text.deepen (2 * more) (literalField depth field) = literalField (depth + more) field := by
  rw [literalField, Text.deepen_append,
    Text.deepen_of_newline_not_mem (newline_not_mem_scriptName field.1),
    Text.deepen_cons_of_ne (by decide), Text.deepen_cons_of_ne (by decide), h, literalField]

/-- **A literal stands deeper** as the same text. -/
theorem deepen_scriptLiteral (v : Json) (more depth : Nat) :
    Text.deepen (2 * more) (scriptLiteral depth v) = scriptLiteral (depth + more) v := by
  induction v using Json.induction generalizing depth with
  | scalar v h =>
    obtain ⟨t, ht, hliteral⟩ := exists_scriptLiteral_of_scalar h
    rw [hliteral, hliteral, Text.deepen_of_newline_not_mem ht]
  | array items ih =>
    rw [scriptLiteral_array, scriptLiteral_array, deepen_bracketed (by decide) (by decide),
      List.map_map]
    refine congrArg _ (List.map_congr_left fun v hv => ?_)
    rw [Function.comp_apply, ih v hv, Nat.add_right_comm]
  | object fields ih =>
    rw [scriptLiteral_object, scriptLiteral_object, deepen_bracketed (by decide) (by decide),
      List.map_map]
    refine congrArg _ (List.map_congr_left fun field hfield => ?_)
    rw [Function.comp_apply, deepen_literalField (ih field hfield _), Nat.add_right_comm]

example : scriptLiteral 2 (.array [.ofString "a\nb"]) =
    Text.deepen 4 "[\n  'a\\nb'\n]".toList := rfl

/-- **Every line feed of a literal is one of its layout.** -/
theorem count_newline_scriptLiteral (v : Json) (depth : Nat) :
    (scriptLiteral depth v).count '\n' = lineBreaks v := by
  induction v using Json.induction generalizing depth with
  | scalar v h =>
    obtain ⟨t, ht, hliteral⟩ := exists_scriptLiteral_of_scalar h
    rw [hliteral, lineBreaks_of_scalar h, List.count_eq_zero.mpr ht]
  | array items ih =>
    rw [scriptLiteral_array, count_newline_bracketed (by decide) (by decide), lineBreaks,
      itemBreaks_eq_map, List.map_map]
    exact congrArg _ (List.map_congr_left fun v hv => ih v hv _)
  | object fields ih =>
    rw [scriptLiteral_object, count_newline_bracketed (by decide) (by decide), lineBreaks,
      fieldBreaks_eq_map, List.map_map]
    refine congrArg _ (List.map_congr_left fun field hfield => ?_)
    have hname := List.count_eq_zero.mpr (newline_not_mem_scriptName field.1)
    rw [Function.comp_apply, literalField, List.count_append, hname,
      List.count_cons_of_ne (by decide), List.count_cons_of_ne (by decide), ih field hfield,
      Nat.zero_add]

/-- **Literals are indented uniformly, and only the layout breaks their lines.**  At any depth a
literal is the one at depth 0 with two blanks for each level behind every line feed.  It has as many
line feeds as its layout makes, whatever its strings and names hold: none of these has any. -/
theorem literals_indent_uniformly :
    (∀ v depth, scriptLiteral depth v = Text.deepen (2 * depth) (scriptLiteral 0 v)) ∧
      (∀ v depth, (scriptLiteral depth v).count '\n' = lineBreaks v) ∧
      ∀ t, '\n' ∉ scriptQuote t ∧ '\n' ∉ scriptName t := by
  refine ⟨fun v depth => ?_, count_newline_scriptLiteral, fun t => ?_⟩
  · rw [deepen_scriptLiteral, Nat.zero_add]
  · exact ⟨newline_not_mem_scriptQuote t, newline_not_mem_scriptName t⟩

end Site

end BookSite
