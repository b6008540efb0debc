import ArmaGen.CommandLine.Sources
import ArmaGen.Proofs.Supplement.Literal
import Mathlib.Data.List.Forall2

/-!
# Supplements are read back

A supplement is written with its texts as they are, between quotes. If every character of them
stands for itself there (`Supplement.Plain`), what the file tells is the supplement that was
written, with its tables in order (`Supplement.exists_read_text`). A backslash does not stand for
itself (`Supplement.read_backslash`).
-/

namespace ArmaGen

open List

open Literal

/-! ### What literals tell -/

/-- The values that a table of literals tells. -/
def Literal.entries? {α : Type} (decode : Literal → Option α) (literal : Literal) :
    Option (Table α) := do
  (← literal.table?).mapM fun (key, value) => return (key, ← decode value)

/-- What a literal tells; without one nothing is told. -/
def Told.list? {α : Type} (decode : Literal → Option (List α)) : Option Literal → Option (List α)
  | none => some []
  | some literal => decode literal

/-- The supplement that literals tell. -/
def Told.supplement? (told : Told) : Option Supplement := do
  let functions ← list? (entries? (entries? TypeEntry.ofLiteral)) told.functions?
  let structs ← list? (entries? (entries? TypeEntry.ofLiteral)) told.structs?
  let includes ← list? texts? told.includes?
  let verbatims ← list? (entries? text?) told.verbatims?
  return { functions, structs, includes, verbatims }

namespace Supplement

/-- The supplement that the assignments of a file tell. -/
def read? (text : String) : Option Supplement := do
  (({} : Told).addAll (← readAssignments? text)).supplement?

/-- A text that stands for itself between two double quotes. -/
abbrev PlainText (text : String) : Prop :=
  ∀ c ∈ text.toList, Literal.Unescaped '"' c

/-- All texts stand for themselves between the quotes they are written in, and lengths are
numbers. -/
structure Plain (supplement : Supplement) : Prop where
  functions : ∀ group ∈ supplement.functions, PlainText group.1 ∧ ∀ entry ∈ group.2,
    PlainText entry.1 ∧ entry.1.toList.head? ≠ some '_' ∧
      ∃ type, entry.2 = .named type ∧ PlainText type
  structs : ∀ group ∈ supplement.structs, PlainText group.1 ∧ group.2 ≠ [] ∧ ∀ entry ∈ group.2,
    PlainText entry.1 ∧ if isLength entry.1 then ∃ n, entry.2 = .number n ∧ n ≠ 0
      else ∃ type, entry.2 = .named type ∧ PlainText type
  includes : ∀ line ∈ supplement.includes, line ≠ "" ∧ ∀ c ∈ line.toList, Literal.Unescaped '\'' c
  verbatims : ∀ entry ∈ supplement.verbatims, PlainText entry.1 ∧
    if '\n' ∈ entry.2.toList then Block entry.2.toList else PlainText entry.2

/-- The suggestions that are written as comments go over one line each. -/
def OneLine (suggestions : TypeTable) : Prop :=
  ∀ group ∈ suggestions, ∀ entry ∈ group.2, '\n' ∉ entry.2.text.toList

/-! ### Lines -/

/-- A line that holds an entry of a table, perhaps with a comment after it. -/
def IsEntry (key : String) (value : Literal) (line : String) : Prop :=
  ∃ pad text gap, Gap pad ∧ Gap gap ∧ PlainText key ∧ Spells value text ∧
    line.toList = pad ++ '"' :: (key.toList ++ '"' :: ' ' :: ':' :: ' ' :: (text ++ ',' :: gap))

variable {key : String} {text gap : List Char} {value : Literal} {width : Nat}
  {suggested : Option TypeEntry} {α β : Type} {entries table : Table α} {suggestions : TypeTable}
  {assignments : Table Literal} {texts : List String}

lemma isEntry_of_text {rest : String} (hkey : PlainText key) (hvalue : Spells value text)
    (hgap : Gap gap) (hrest : rest.toList = text ++ ',' :: gap) :
    IsEntry key value (quotedKey width key ++ rest) := by
  refine ⟨_, text, gap, gap_blanks (width - key.length), hgap, hkey, hvalue, ?_⟩
  simp [quotedKey, blanks, hrest]

lemma gap_line : Gap ['\n'] :=
  .separator rfl .nil

lemma spells_text {text : String} (h : PlainText text) :
    Spells (.string text) ('"' :: (text.toList ++ ['"'])) := by
  have hspells := spells_plain (.inr rfl) h
  rwa [String.ofList_toList] at hspells

lemma exists_quotedEntry_eq (h : ∀ entry ∈ suggested, '\n' ∉ entry.text.toList) (type : String) :
    ∃ gap, Gap gap ∧ (quotedEntry suggested (.named type)).toList =
      ('"' :: (type.toList ++ ['"'])) ++ ',' :: gap := by
  unfold quotedEntry
  split
  · exact ⟨_, gap_line, by simp [TypeEntry.text]⟩
  · next hset =>
    obtain rfl : type = "" := by simpa [TypeEntry.isSet] using hset
    split
    · next suggestion =>
      split
      · have hcomment : Gap ('#' :: (' ' :: suggestion.text.toList ++ ['\n'])) :=
          .comment (by simpa using h suggestion rfl) .nil
        exact ⟨_, .separator (c := ' ') rfl hcomment, by simp⟩
      · exact ⟨_, gap_line, by simp⟩
    · exact ⟨_, gap_line, by simp⟩

lemma isEntry_named {type : String} (hsuggested : ∀ entry ∈ suggested, '\n' ∉ entry.text.toList)
    (hkey : PlainText key) (htype : PlainText type) :
    IsEntry key (.string type) (quotedKey width key ++ quotedEntry suggested (.named type)) := by
  obtain ⟨gap, hgap, heq⟩ := exists_quotedEntry_eq hsuggested type
  exact isEntry_of_text hkey (spells_text htype) hgap heq

lemma isEntry_verbatimLine {output : String} (hkey : PlainText key)
    (h : if '\n' ∈ output.toList then Block output.toList else PlainText output) :
    IsEntry key (.string output) (verbatimLine width key output) := by
  unfold verbatimLine
  by_cases hline : '\n' ∈ output.toList
  · rw [if_pos hline] at h
    have hspells := spells_block h
    rw [String.ofList_toList] at hspells
    simp only [contains_iff_mem.2 hline, String.append_assoc]
    exact isEntry_of_text hkey hspells gap_line (by simp)
  · rw [if_neg hline] at h
    have hcontains : output.toList.contains '\n' = false := by simpa using hline
    simp only [hcontains, String.append_assoc]
    exact isEntry_of_text hkey (spells_text h) gap_line (by simp)

/-! ### Tables and lists -/

lemma entries?_cons {decode : Literal → Option α} {a : α} {values : Table Literal}
    (hvalue : decode value = some a) (h : entries? decode (.table values) = some entries)
    (key : String) :
    entries? decode (.table ((key, value) :: values)) = some ((key, a) :: entries) := by
  have hmap : values.mapM (fun (key, value) => return (key, ← decode value)) = some entries := h
  show mapM _ _ = _
  rw [mapM_cons, hmap]
  simp [hvalue]

section

variable (decode : Literal → Option β) (f : α → β) (line : String → α → String) (hgap : Gap gap)
  (h : ∀ entry ∈ entries, ∃ value, decode value = some (f entry.2) ∧
    IsEntry entry.1 value (line entry.1 entry.2))

include decode f line hgap h

lemma exists_spellsEntries :
    ∃ values, entries? decode (.table values) = some (entries.mapValues f) ∧ SpellsEntries values
        ((String.join (entries.map fun (key, entry) => line key entry)).toList ++ gap) := by
  induction entries with
  | nil => exact ⟨[], rfl, spellsEntries_gap hgap⟩
  | cons entry entries ih =>
    rw [forall_mem_cons] at h
    obtain ⟨⟨value, hvalue, pad, text, gap', hpad, hgap', hkey, hspells, hline⟩, hentries⟩ := h
    obtain ⟨values, hvalues, hmore⟩ := ih hentries
    refine ⟨(entry.1, value) :: values, ?_, ?_⟩
    · exact entries?_cons hvalue hvalues entry.1
    · have hcons := ((hmore.after_gap hgap').cons hkey hspells).after_gap hpad
      simpa [hline] using hcons

lemma exists_spells_entries : ∃ literal, entries? decode literal = some (entries.mapValues f) ∧
      Spells literal ('\x7b' :: '\n' ::
        ((String.join (entries.map fun (key, entry) => line key entry)).toList ++
          (gap ++ ['\x7d']))) := by
  obtain ⟨values, hvalues, hspells⟩ := exists_spellsEntries decode f line hgap h
  refine ⟨.table values, hvalues, ?_⟩
  simpa using spells_table (hspells.after_gap gap_line)

end

lemma exists_spellsItems {lines : List String}
    (h : ∀ line ∈ lines, ∀ c ∈ line.toList, Literal.Unescaped '\'' c) :
    ∃ items, texts? (.list items) = some lines ∧
      SpellsItems items (String.join (lines.map fun line => "  '" ++ line ++ "',\n")).toList := by
  induction lines with
  | nil => exact ⟨[], rfl, spellsItems_gap .nil⟩
  | cons line lines ih =>
    rw [forall_mem_cons] at h
    obtain ⟨items, hitems, hmore⟩ := ih h.2
    have hmap : items.mapM text? = some lines := hitems
    refine ⟨.string line :: items, ?_, ?_⟩
    · show mapM text? _ = _
      rw [mapM_cons, hmap]
      rfl
    · have hcons := ((hmore.after_gap gap_line).cons h.1).after_gap (gap_blanks 2)
      simpa using hcons

/-! ### Parts -/

lemma sorted_mem {entry : String × α} : entry ∈ sorted table ↔ entry ∈ table :=
  mem_mergeSort

lemma mem_of_get? {a : α} (h : table.get? key = some a) : (key, a) ∈ table := by
  obtain ⟨before, after, heq, -⟩ := lookup_eq_some_iff.1 h
  simp [heq]

lemma oneLine_get? (h : OneLine suggestions) (name key : String) :
    ∀ entry ∈ ((suggestions.get? name).getD []).get? key, '\n' ∉ entry.text.toList := by
  intro entry hentry
  cases hgroup : suggestions.get? name with
  | none =>
    rw [hgroup] at hentry
    cases hentry
  | some group =>
    rw [hgroup] at hentry
    exact h (name, group) (mem_of_get? hgroup) (key, entry) (mem_of_get? hentry)

/-- A table of groups is spelled if every line of every group is. -/
lemma exists_spells_groups (line : Nat → Option TypeEntry → String → TypeEntry → String)
    {groups : TypeTable} (h : ∀ group ∈ groups, PlainText group.1 ∧ ∀ entry ∈ group.2, ∀ width,
      ∃ value, TypeEntry.ofLiteral value = some entry.2 ∧ IsEntry entry.1 value
        (line width (((suggestions.get? group.1).getD []).get? entry.1) entry.1 entry.2)) :
    ∃ literal, entries? (entries? TypeEntry.ofLiteral) literal =
        some ((sorted groups).mapValues sorted) ∧
      Spells literal ('\x7b' :: '\n' :: ((String.join ((sorted groups).map fun (name, entries) =>
        groupLines line suggestions name entries)).toList ++ ['\x7d'])) := by
  refine exists_spells_entries _ sorted (groupLines line suggestions) .nil fun group hgroup => ?_
  obtain ⟨hname, hentries⟩ := h group (sorted_mem.1 hgroup)
  obtain ⟨literal, hliteral, hspells⟩ := exists_spells_entries TypeEntry.ofLiteral id
    (fun key => line (widest group.2 + 4) (((suggestions.get? group.1).getD []).get? key) key)
    (gap_blanks 2) fun entry hentry => hentries entry (sorted_mem.1 hentry) (widest group.2 + 4)
  refine ⟨literal, ?_, _, _, _, gap_blanks 2, gap_line, hname, hspells, ?_⟩
  · simpa [Table.mapValues] using hliteral
  · simp [groupLines]

/-- An assignment of a value to a name. -/
def IsAssignment (name : String) (value : Literal) (text : String) : Prop :=
  name.toList ≠ [] ∧ (∀ c ∈ name.toList, isWord c = true) ∧ ∃ c body, c ≠ ' ' ∧
    Spells value (c :: body) ∧ text.toList = name.toList ++ ' ' :: '=' :: ' ' :: c :: body

lemma exists_isAssignment_functionsText {functions : TypeTable} (hsuggestions : OneLine suggestions)
    (h : ∀ group ∈ functions, PlainText group.1 ∧ ∀ entry ∈ group.2, PlainText entry.1 ∧
      entry.1.toList.head? ≠ some '_' ∧ ∃ type, entry.2 = .named type ∧ PlainText type) :
    ∃ literal, entries? (entries? TypeEntry.ofLiteral) literal =
        some ((sorted functions).mapValues sorted) ∧
      IsAssignment "functions" literal (functionsText suggestions functions) := by
  obtain ⟨literal, hliteral, hspells⟩ := exists_spells_groups variableLine
    fun group hgroup => ⟨(h group hgroup).1, fun entry hentry width => by
      obtain ⟨hkey, hunderscore, type, htype, hplain⟩ := (h group hgroup).2 entry hentry
      refine ⟨.string type, htype ▸ rfl, ?_⟩
      rw [variableLine, if_neg (by simpa using hunderscore), htype]
      exact isEntry_named (oneLine_get? hsuggestions _ _) hkey hplain⟩
  refine ⟨literal, hliteral, by decide, by decide, _, _, by decide, hspells, ?_⟩
  simp [functionsText]

lemma exists_isAssignment_structsText {structs : TypeTable} (hsuggestions : OneLine suggestions)
    (h : ∀ group ∈ structs, PlainText group.1 ∧ group.2 ≠ [] ∧ ∀ entry ∈ group.2,
      PlainText entry.1 ∧ if isLength entry.1 then ∃ n, entry.2 = .number n ∧ n ≠ 0
        else ∃ type, entry.2 = .named type ∧ PlainText type) :
    ∃ literal text, structsText suggestions structs = .ok text ∧
      entries? (entries? TypeEntry.ofLiteral) literal =
        some ((sorted structs).mapValues sorted) ∧ IsAssignment "structs" literal text := by
  obtain ⟨literal, hliteral, hspells⟩ := exists_spells_groups fieldLine
    fun group hgroup => ⟨(h group hgroup).1, fun entry hentry width => by
      obtain ⟨hkey, hentry⟩ := (h group hgroup).2.2 entry hentry
      rw [fieldLine]
      -- lengths are the only fields that are written without quotes
      split at hentry
      · next hlength =>
        obtain ⟨n, hn, hne⟩ := hentry
        have hset : (TypeEntry.number n).isSet = true := by simpa [TypeEntry.isSet] using hne
        refine ⟨.number n, hn ▸ rfl, ?_⟩
        rw [if_pos hlength, hn, if_pos hset, String.append_assoc]
        exact isEntry_of_text hkey (spells_number n) gap_line (by simp [TypeEntry.text])
      · next hlength =>
        obtain ⟨type, htype, hplain⟩ := hentry
        refine ⟨.string type, htype ▸ rfl, ?_⟩
        rw [if_neg hlength, htype]
        exact isEntry_named (oneLine_get? hsuggestions _ _) hkey hplain⟩
  rw [structsText, if_neg]
  · refine ⟨literal, _, rfl, hliteral, by decide, by decide, _, _, by decide, hspells, ?_⟩
    simp
  · intro hany
    obtain ⟨group, hgroup, hempty⟩ := any_eq_true.1 hany
    exact (h group hgroup).2.1 (isEmpty_iff.1 hempty)

lemma exists_isAssignment_includesText {includes : List String}
    (h : ∀ line ∈ includes, line ≠ "" ∧ ∀ c ∈ line.toList, Literal.Unescaped '\'' c) :
    ∃ literal, texts? literal = some includes ∧
      IsAssignment "includes" literal (includesText includes) := by
  have hfilter : includes.filter (· != "") = includes := by
    rw [filter_eq_self]
    exact fun line hline => bne_iff_ne.2 (h line hline).1
  obtain ⟨items, hitems, hspells⟩ := exists_spellsItems fun line hline => (h line hline).2
  refine ⟨.list items, hitems, by decide, by decide, _, _, by decide,
    spells_list (hspells.after_gap gap_line), ?_⟩
  simp [includesText, hfilter]

lemma exists_isAssignment_verbatimsText {verbatims : Table String}
    (h : ∀ entry ∈ verbatims, PlainText entry.1 ∧
      if '\n' ∈ entry.2.toList then Block entry.2.toList else PlainText entry.2) :
    ∃ literal, entries? text? literal = some (sorted verbatims) ∧
      IsAssignment "verbatims" literal (verbatimsText verbatims) := by
  have hlines : ∀ entry ∈ sorted verbatims, ∃ value, text? value = some (id entry.2) ∧
      IsEntry entry.1 value (verbatimLine (widest verbatims + 2) entry.1 entry.2) := by
    intro entry hentry
    obtain ⟨hkey, houtput⟩ := h entry (sorted_mem.1 hentry)
    exact ⟨_, rfl, isEntry_verbatimLine hkey houtput⟩
  obtain ⟨literal, hliteral, hspells⟩ := exists_spells_entries _ id
    (verbatimLine (widest verbatims + 2)) .nil hlines
  refine ⟨literal, ?_, by decide, by decide, _, _, by decide, hspells, ?_⟩
  · simpa [Table.mapValues] using hliteral
  · simp [verbatimsText]

/-! ### Files -/

lemma assigns_joinWith (h : Forall₂ (fun entry => IsAssignment entry.1 entry.2) assignments texts) :
    Assigns assignments (joinWith "\n" texts).toList := by
  induction h with
  | nil => exact assigns_nil
  | @cons entry text assignments texts hhead htail ih =>
    obtain ⟨hname, hword, c, body, hc, hspells, htext⟩ := hhead
    cases texts with
    | nil =>
      cases htail
      have hends : Ends [] := by simp [Ends]
      have hlast := assigns_nil.cons hname hword hc hspells hends rfl .refl
      simpa [joinWith, htext] using hlast
    | cons next texts =>
      have hends : Ends ('\n' :: (joinWith "\n" (next :: texts)).toList) := by
        rintro c ⟨⟩
        decide
      have hcons := ih.cons hname hword hc hspells hends rfl (by simp)
      simpa [joinWith, htext] using hcons

lemma assigns_explanation (h : Assigns assignments text) :
    Assigns assignments (explanation.toList ++ text) := by
  obtain ⟨lines, hlines, heq⟩ : ∃ lines : List (List Char), (∀ line ∈ lines, '\n' ∉ line) ∧
      explanation.toList = lines.flatMap fun line => '#' :: (line ++ ['\n']) :=
    ⟨(explanation.toList.splitOn '\n').dropLast.map tail, by decide +kernel, by decide +kernel⟩
  rw [heq]
  clear heq
  induction lines with
  | nil => exact h
  | cons line lines ih =>
    rw [forall_mem_cons] at hlines
    simpa using (ih hlines.2).after_comment hlines.1

lemma assigns_explained (h : Assigns assignments (joinWith "\n" texts).toList) (explained : Bool) :
    Assigns assignments
      (joinWith "\n" ((if explained then [explanation] else []) ++ texts)).toList := by
  cases explained with
  | false => exact h
  | true =>
    cases texts with
    | nil => simpa [joinWith] using assigns_explanation h
    | cons text texts =>
      -- there is an empty line between the explanation and the first part
      have hline : Assigns assignments ('\n' :: (joinWith "\n" (text :: texts)).toList) :=
        h.after_line rfl (by simp)
      simpa [joinWith] using assigns_explanation hline

lemma exists_part (items : List α) {decode : Literal → Option (List β)} {name text : String}
    {result : List β} (hempty : items = [] → result = [])
    (h : ∃ literal, decode literal = some result ∧ IsAssignment name literal text) :
    ∃ part : Option Literal, Told.list? decode part = some result ∧
      Forall₂ (fun entry => IsAssignment entry.1 entry.2)
        (part.map fun literal => (name, literal)).toList
          (if items.isEmpty then [] else [text]) := by
  obtain ⟨literal, hliteral, htext⟩ := h
  by_cases hitems : items = []
  · refine ⟨none, ?_, ?_⟩
    · rw [hempty hitems]
      rfl
    · simp [hitems]
  · exact ⟨some literal, hliteral, by simpa [hitems] using htext⟩

lemma addAll_parts (functions structs includes verbatims : Option Literal) :
    ({} : Told).addAll ((functions.map fun literal => ("functions", literal)).toList ++
      (structs.map fun literal => ("structs", literal)).toList ++
      (includes.map fun literal => ("includes", literal)).toList ++
      (verbatims.map fun literal => ("verbatims", literal)).toList) =
      ⟨functions, structs, includes, verbatims⟩ := by
  cases functions <;> cases structs <;> cases includes <;> cases verbatims <;> rfl

/-- What is written is a file of assignments that tells the supplement, with its tables in
order. -/
theorem exists_read_text {supplement : Supplement} {suggestions : TypeTable}
    (hplain : supplement.Plain) (hsuggestions : OneLine suggestions) (explained : Bool) :
    ∃ text, supplement.text suggestions explained = .ok text ∧ read? text = some
      { functions := (sorted supplement.functions).mapValues sorted
        structs := (sorted supplement.structs).mapValues sorted
        includes := supplement.includes
        verbatims := sorted supplement.verbatims } := by
  obtain ⟨structs, structsText, hstructsText, hstructs⟩ :=
    exists_isAssignment_structsText hsuggestions hplain.structs
  obtain ⟨structs, hstructs, hstructsPart⟩ :=
    exists_part supplement.structs (by simp +contextual [sorted, Table.mapValues])
      ⟨structs, hstructs⟩
  obtain ⟨functions, hfunctions, hfunctionsPart⟩ :=
    exists_part supplement.functions (by simp +contextual [sorted, Table.mapValues])
      (exists_isAssignment_functionsText hsuggestions hplain.functions)
  obtain ⟨includes, hincludes, hincludesPart⟩ :=
    exists_part supplement.includes id (exists_isAssignment_includesText hplain.includes)
  obtain ⟨verbatims, hverbatims, hverbatimsPart⟩ :=
    exists_part supplement.verbatims (by simp +contextual [sorted])
      (exists_isAssignment_verbatimsText hplain.verbatims)
  have hassigns := assigns_joinWith (List.rel_append (List.rel_append (List.rel_append
    hfunctionsPart hstructsPart) hincludesPart) hverbatimsPart)
  have htext : supplement.text suggestions explained = .ok (joinWith "\n"
      ((if explained then [explanation] else []) ++
        ((if supplement.functions.isEmpty then []
            else [functionsText suggestions supplement.functions]) ++
          (if supplement.structs.isEmpty then [] else [structsText]) ++
          (if supplement.includes.isEmpty then [] else [includesText supplement.includes]) ++
          (if supplement.verbatims.isEmpty then []
            else [verbatimsText supplement.verbatims])))) := by
    simp only [text, hstructsText, List.append_assoc]
    cases supplement.structs.isEmpty <;> rfl
  refine ⟨_, htext, ?_⟩
  rw [read?, readAssignments?_eq (assigns_explained hassigns explained)]
  show Told.supplement? _ = _
  rw [addAll_parts]
  simp [Told.supplement?, hfunctions, hstructs, hincludes, hverbatims]

/-- A function, a record with a length, an included file and output that goes over two lines. -/
theorem exists_read_text_sample : ∃ supplement : Supplement, supplement =
        { functions := [("f", [("x", .named "int")])]
          structs := [("s", [("_size", .number 3)])]
          includes := ["#include <cmath>"]
          verbatims := [("k", "a();\nb(\"c\");")] } ∧
      ∃ text, supplement.text [] true = .ok text ∧ read? text = some
        { functions := (sorted supplement.functions).mapValues sorted
          structs := (sorted supplement.structs).mapValues sorted
          includes := supplement.includes
          verbatims := sorted supplement.verbatims } := by
  refine ⟨_, rfl, exists_read_text ⟨?_, ?_, ?_, ?_⟩ (by simp [OneLine]) true⟩
  · exact List.forall_mem_singleton.2 ⟨by decide, List.forall_mem_singleton.2
      ⟨by decide, by decide, "int", rfl, by decide⟩⟩
  · refine List.forall_mem_singleton.2 ⟨by decide, by decide, List.forall_mem_singleton.2
      ⟨by decide, ?_⟩⟩
    rw [if_pos (by decide)]
    exact ⟨3, rfl, by decide⟩
  · exact List.forall_mem_singleton.2 ⟨by decide, by decide⟩
  · refine List.forall_mem_singleton.2 ⟨by decide, ?_⟩
    rw [if_pos (by decide)]
    exact ⟨by decide, by decide, by simp [List.infix_cons_iff], by decide⟩

/-- A backslash and the letter after it are read as one character. -/
theorem read_backslash : ∃ text,
    ({ verbatims := [("k", "a\\b")] } : Supplement).text [] false = .ok text ∧
      read? text = some { verbatims := [("k", "a\x08")] } := by
  refine ⟨"verbatims = \x7b\n  \"k\" : \"a\\b\",\n\x7d", ?_, by decide +kernel⟩
  simp only [text, verbatimsText, sorted, List.mergeSort_singleton]
  rfl

end Supplement

end ArmaGen
