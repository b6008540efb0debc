import ArmaGen.Proofs.Project.Alike
import ArmaGen.Proofs.Script.Syntax

/-!
# Scripts over several lines

A line of a script (`Line`) may be broken after its operators and after the sign of an assignment.
Such a script is read as the trees of its lines (`Line.exists_yields_program`), and loaded as the
script without breaks is, apart from places (`Line.load_broken_alike`). A break before an operator
is not passed in that way (`Line.load_break_before_operator`).
-/

namespace ArmaGen

open List

open Syntax

/-! ### Lines -/

/-- A line of a script: an expression, or the assignment of one to a name. -/
inductive Line where
  /-- An expression that stands alone. -/
  | expr (t : Term)
  | assign (v : Structured.Ident) (t : Term)

namespace Line

def text (gap : List Char) (sp : Spacing) (b : Breaks) : Line → List Char
  | .expr t => t.broken gap sp b
  | .assign v t => v.name.chars ++ ' ' :: '=' :: ' ' :: (b.lead gap ++ t.broken gap sp b)

def form : Line → Syntax
  | .expr t => .node { kind := .statement, code? := some "" } [t.form]
  | .assign v t =>
    .node { kind := .assign, name := t.form.name, code? := some "" }
      [.node { kind := .var, name := v.name.text, code? := some "" } [.declare], t.form]

def outline : Line → Outline
  | .expr t => .node .statement "" "" [t.outline]
  | .assign v t => .node .assign "" "" [v.outline, t.outline]

/-- A line that is read as a statement of its own: its expression is layered, and starts with no
keyword if it stands alone. -/
inductive Proper (sp : Spacing) : Line → Prop where
  | expr {t : Term} (ht : t.Layered sp) (hfree : t.leadsFree = true) (hpassed : t.isPassed = true) :
      Proper sp (.expr t)
  | assign {v : Structured.Ident} {t : Term} (ht : t.Layered sp) : Proper sp (.assign v t)

open Source Parse Script

variable {sp : Spacing} {st : Setting} {b : Breaks} {l : Line} {ls : List (Line × Breaks)} {k : Int}
  {m : Nat} {rest : List Char} {forms : List Syntax}

lemma inner_form (l : Line) : l.form.Inner := by
  cases l with
  | expr t => exact ⟨rfl, .inr ⟨t.inner_form, trivial⟩⟩
  | assign v t => exact ⟨rfl, .inr ⟨⟨rfl, .inl ⟨rfl, rfl⟩⟩, t.inner_form, trivial⟩⟩

lemma inners_forms (ls : List (Line × Breaks)) : Syntax.Inners (ls.map fun l => l.1.form) := by
  induction ls with
  | nil => trivial
  | cons l ls ih => exact ⟨l.1.inner_form, ih⟩

lemma outline_form (l : Line) : l.form.outline = [l.outline] := by
  cases l with
  | expr t => simp [form, outline, Syntax.outline, outlines, t.outline_form]
  | assign v t =>
    simp [form, outline, Syntax.outline, outlines, t.outline_form,
      Structured.Ident.outline, Term.outline]

lemma text_assign_append (gap : List Char) (sp : Spacing) (b : Breaks) (v : Structured.Ident)
    (t : Term) (rest : List Char) :
    text gap sp b (.assign v t) ++ rest =
      v.name.chars ++ ' ' :: '=' :: ' ' :: (b.lead gap ++ t.broken gap sp b ++ rest) := by
  simp [text]

lemma Proper.startsFree (hl : l.Proper sp) (gap : List Char) (b : Breaks) (rest : List Char) :
    Term.StartsFree (l.text gap sp b ++ '\n' :: rest) := by
  cases hl with
  | expr _ hfree => exact Term.startsFree_broken hfree gap sp b rest (by decide)
  | assign => exact .inl ⟨_, ' ', _, text_assign_append .., by decide⟩

lemma exists_head (gap : List Char) (sp : Spacing) (b : Breaks) (l : Line) :
    ∃ c cs, l.text gap sp b = c :: cs ∧ startsTerm c = true := by
  cases l with
  | expr t =>
    obtain ⟨c, cs, -, hhead, -, hc⟩ := Term.exists_broken_head gap sp b t
    exact ⟨c, cs, hhead, hc⟩
  | assign v t =>
    obtain ⟨c, cs, hchars, hc, -⟩ := v.name.exists_chars
    exact ⟨c, _, by rw [text, hchars]; rfl, by simp [startsTerm, isAlnum, hc]⟩

/-- A line is read as its statement, whatever breaks are in it. -/
lemma Proper.goesThrough (hl : l.Proper sp) :
    GoesThrough st (fun l : Line × Breaks => l.1.text readDots sp l.2)
      (fun _ ls made => placelessAll made = ls.map fun l => l.1.form) (l, b) := by
  intro k rest ls hfresh h hsize hrest
  show GoesOn st k (placelessAll · = l.form :: ls.map fun l => l.1.form)
  dsimp only at h hsize hrest
  generalize (ls.map fun l => l.1.form) = forms at hrest ⊢
  cases hl with
  | @expr t ht hfree hpassed =>
    refine goesOn_expression ht hfree hpassed hfresh h hsize (fun made hmade => ?_) hrest
    rw [placelessAll, placeless, placelessAll, t.placeless_brokenTree, hmade]
    rfl
  | @assign v t ht =>
    obtain ⟨c, cs, htext, hc⟩ := exists_head readDots sp b (.assign v t)
    have hfree := (Proper.assign (v := v) ht).startsFree readDots b rest
    have hyields := yields_assignment_broken (b.lead_eq readDots) ht (text_assign_append .. ▸ h)
    have hlen := congrArg length (text_assign_append readDots sp b v t [])
    have htail := congrArg length htext
    simp at hlen htail
    rw [htext] at h hfree
    refine goesOn_statement (m := 0) (Q := (placelessAll · = forms)) h hc hfree
      ⟨_, hyields.cast ?_, fun made hmade => ?_⟩ (by omega) ?_
    · rw [length_append]
      omega
    · rw [form, ← t.placeless_brokenTree sp b (k + v.name.chars.length + 3 +
        (b.lead readDots).length), name_placeless, ← hmade]
      rfl
    · rwa [show k + 1 + cs.length + (0 : Nat) + 1 = k + (text readDots sp b (.assign v t)).length +
        1 by omega]

def lines (gap : List Char) (sp : Spacing) (ls : List (Line × Breaks)) : List Char :=
  ls.flatMap fun l => l.1.text gap sp l.2 ++ ['\n']

/-! ### Scripts -/

/-- The tree of a script of lines, without places: its main function, if there are lines. -/
def scriptForms (ls : List Line) : List Syntax :=
  if ls = [] then []
  else [.node { kind := .main, name := "main" } [.leaf { kind := .declares },
    .leaf { kind := .returns }, .leaf { kind := .params },
    .node { kind := .block, code? := some "" } (ls.map form)]]

/-- A script of lines is read as its main function, whatever breaks are in them. -/
lemma exists_yields_program (hls : ∀ l ∈ ls, l.1.Proper sp) (hm : 2 ≤ m)
    (h : st.source = .ofString (String.ofList (lines readDots sp ls ++ replicate m '\n'))) :
    ∃ trees, Parse.program.Yields st trees () ∧ (∀ tree ∈ trees, tree.IsFunc) ∧
      placelessAll trees = scriptForms (ls.map Prod.fst) := by
  have hfirst : ∀ l ∈ ls, ∃ c cs, l.1.text readDots sp l.2 = c :: cs ∧ startsTerm c = true ∧
      ∀ rest, Term.StartsFree (l.1.text readDots sp l.2 ++ '\n' :: rest) := by
    intro l hl
    obtain ⟨c, cs, hhead, hc⟩ := exists_head readDots sp l.2 l.1
    exact ⟨c, cs, hhead, hc, (hls l hl).startsFree readDots l.2⟩
  obtain ⟨made, code, hmade, hyields⟩ := exists_yields_written
    (fun l hl => (hls l hl).goesThrough) (fun _ => rfl) hfirst hm h
  refine ⟨_, hyields, ?_, ?_⟩
  · have hinners : Syntax.Inners made := by
      rw [← inners_placelessAll, hmade]
      exact inners_forms _
    intro tree htree
    split at htree
    · cases htree
    · rw [mem_singleton.mp htree]
      exact .mk (.inr rfl) rfl rfl rfl (by simp) (by simp) ⟨rfl, .inr hinners⟩
  · have hblock : placelessAll made = (ls.map Prod.fst).map form := by
      rw [hmade, map_map]
      rfl
    rw [scriptForms, ← hblock]
    simp only [map_eq_nil_iff]
    split <;> rfl

def scriptOutline (name : String) (ls : List Line) : Outline :=
  .node .funcs name "" (if ls = [] then []
    else [.node .main "main" "" [.node .declares "" "" [], .node .returns "" "" [],
      .node .params "" "" [], .node .block "" "" (ls.map outline)]])

lemma outlines_scriptForms (name : String) (ls : List Line) :
    .node .funcs name "" (Syntax.outlines (scriptForms ls)) = scriptOutline name ls := by
  have hall : ∀ ls : List Line, outlines (ls.map form) = ls.map outline := by
    intro ls
    induction ls with
    | nil => rfl
    | cons l ls ih => rw [map_cons, outlines, outline_form, ih]; rfl
  rw [scriptOutline, scriptForms]
  split
  · rfl
  · simp [outlines, Syntax.outline, Syntax.leaf, hall]

/-! ### The text that is read -/

lemma continuedAs_lead (b : Breaks) : ContinuedAs (b.lead dots) (b.lead readDots) := by
  unfold Breaks.lead
  split
  · exact fun _ => rfl
  · exact fun _ => rfl

lemma continuedAs_brokenTail {sep : List Char} {i : Nat} {ts : List Term} (hsep : Uncontinued sep)
    (hts : ∀ t ∈ ts, ∀ b, ContinuedAs (t.broken dots sp b) (t.broken readDots sp b)) :
    ContinuedAs (Term.brokenTail dots sp sep b i ts) (Term.brokenTail readDots sp sep b i ts) := by
  induction ts generalizing i with
  | nil => exact fun _ => rfl
  | cons t ts ih =>
    have hsep : ContinuedAs sep sep := hsep
    exact (hsep.append ((continuedAs_lead _).append (hts t (.head _) _))).append
      (ih (forall_mem_cons.1 hts).2)

lemma continuedAs_broken (sp : Spacing) (b : Breaks) (t : Term) :
    ContinuedAs (t.broken dots sp b) (t.broken readDots sp b) := by
  induction t using Term.induct generalizing b with
  | chain op first others ihf iho =>
    exact (ihf _).append (continuedAs_brokenTail (uncontinued_joint sp op) iho)
  | _ => exact uncontinued_text sp _

lemma continuedAs_text (sp : Spacing) (b : Breaks) (l : Line) :
    ContinuedAs (l.text dots sp b) (l.text readDots sp b) := by
  cases l with
  | expr t => exact continuedAs_broken sp b t
  | assign v t =>
    have hname : ContinuedAs (v.name.chars ++ [' ', '=', ' '])
      (v.name.chars ++ [' ', '=', ' ']) := by
      refine (uncontinued_of_not_mem fun h => ?_).append (uncontinued_of_not_mem (by decide))
      exact absurd (v.name.isWord_of_mem h) (by decide)
    have := hname.append ((continuedAs_lead b).append (continuedAs_broken sp b t))
    rwa [append_assoc, append_assoc] at this

/-- A script as it is written: its lines with their breaks, and further line ends. -/
def scriptText (sp : Spacing) (ends : Nat) (ls : List (Line × Breaks)) : List Char :=
  intercalate ['\n'] (ls.map fun l => l.1.text dots sp l.2) ++ replicate ends '\n'

/-! ### Loading -/

/-- The script on as few lines as it has statements. -/
def unbroken (ls : List (Line × Breaks)) : List (Line × Breaks) :=
  ls.map fun l => (l.1, .none)

/-- Breaks do not change what a script is loaded as: with and without them it is accepted, its main
function has the statements that the lines spell, and all else in the two projects agrees too, apart
from places. -/
theorem load_broken_alike (sp : Spacing) (ends : Nat) (ls : List (Line × Breaks))
    (hls : ∀ l ∈ ls, l.1.Proper sp) (name : String) (options : Options) (directory : Directory) :
    ∃ p p' program funcs,
      Edit.load name (String.ofList (scriptText sp ends (unbroken ls))) { options, directory } =
          .ok () p ∧
        Edit.load name (String.ofList (scriptText sp ends ls)) { options, directory } = .ok () p' ∧
        p'.placeless = p.placeless ∧
        Edit.child Edit.root 0 p = .ok program p ∧ Edit.child program 1 p = .ok funcs p ∧
        p.outline funcs = scriptOutline name (ls.map Prod.fst) := by
  have hread : ∀ ls : List (Line × Breaks), (∀ l ∈ ls, l.1.Proper sp) →
      ∃ trees, Parse.program.Yields
          (Edit.loadSetting { options } (String.ofList (scriptText sp ends ls))) trees () ∧
        (∀ tree ∈ trees, tree.IsFunc) ∧
        Syntax.placelessAll trees = scriptForms (ls.map Prod.fst) := by
    intro ls hls
    obtain ⟨m, hm, htext⟩ := exists_programText_written ends
      fun l (_ : l ∈ ls) => continuedAs_text sp l.2 l.1
    rw [Edit.loadSetting, scriptText, htext]
    exact exists_yields_program hls hm rfl
  obtain ⟨trees, hyields, hfuncs, hforms⟩ := hread (unbroken ls) (by
    intro l hl
    obtain ⟨u, hu, rfl⟩ := List.mem_map.mp hl
    exact hls u hu)
  obtain ⟨trees', hyields', -, hforms'⟩ := hread ls hls
  have hsame : (unbroken ls).map Prod.fst = ls.map Prod.fst := by
    simp [unbroken]
  rw [hsame] at hforms
  obtain ⟨p, p', hload, hload', halike, hframe, hbears⟩ := Edit.exists_load_alike name
    (hforms.trans hforms'.symm) directory hyields hyields' hfuncs
  refine ⟨p, p', 1, 3, hload, hload', halike.symm, Edit.child_natCast_eq (i := 0) ?_,
    Edit.child_natCast_eq (i := 1) ?_, ?_⟩
  · rw [hframe.children_root]
    rfl
  · rw [hframe.children_program]
    rfl
  · rw [hbears.outline_eq, ← Syntax.outlines_placelessAll, hforms, outlines_scriptForms]

/-- A sum of a name and a product, once assigned and once alone, with breaks. -/
def sampleLines : List (Line × Breaks) :=
  let sum : Term := .chain .plus (.name .a) [.chain .mul (.name .b) [.name .c]]
  [(.assign ⟨.c, rfl⟩ sum, fun path => path == [] || path == [1, 1]),
    (.expr sum, fun path => path == [1])]

lemma proper_sampleLines : ∀ l ∈ sampleLines, l.1.Proper spaced := by
  have hproduct : (Term.chain .mul (.name .b) [.name .c]).Layered spaced := by
    refine .chain (by simp) (.name rfl) ?_ (by decide) ⟨?_, by decide, trivial⟩
    · intro t ht
      rw [mem_singleton.mp ht]
      exact .name rfl
    · constructor <;> decide
  have hsum : (Term.chain .plus (.name .a) [.chain .mul (.name .b) [.name .c]]).Layered spaced := by
    refine .chain (by simp) (.name rfl) ?_ (by decide) ⟨?_, by decide, trivial⟩
    · intro t ht
      rw [mem_singleton.mp ht]
      exact hproduct
    · constructor <;> decide
  intro l hl
  simp only [sampleLines, mem_cons, not_mem_nil, or_false] at hl
  rcases hl with rfl | rfl
  · exact .assign hsum
  · exact .expr hsum rfl rfl

theorem load_broken_alike_sample : String.ofList (scriptText spaced 1 sampleLines) =
      "c = ...\na + b * ...\nc\na + ...\nb * c\n" ∧
    ∃ p p' program funcs,
      Edit.load "unamed" (String.ofList (scriptText spaced 1 (unbroken sampleLines))) {} = .ok ()
        p ∧
        Edit.load "unamed" (String.ofList (scriptText spaced 1 sampleLines)) {} = .ok () p' ∧
        p'.placeless = p.placeless ∧
        Edit.child Edit.root 0 p = .ok program p ∧ Edit.child program 1 p = .ok funcs p ∧
        p.outline funcs = scriptOutline "unamed" (sampleLines.map Prod.fst) :=
  ⟨by decide, load_broken_alike spaced 1 sampleLines proper_sampleLines "unamed" {} {}⟩

/-- A break before an operator is not passed: the name before it is taken for a record, and is
lost. -/
theorem load_break_before_operator : ∃ p, Edit.load "unamed" "a ...\n+ b" {} = .ok () p ∧
    (p.nodes.any fun node => node.name == "a") = false := by
  have hloads : (Edit.load "unamed" "a ...\n+ b").passes {}
      (fun _ p => !p.nodes.any fun node => node.name == "a") = true := by decide +kernel
  obtain ⟨⟨⟩, p, hrun, hnone⟩ := Edit.exists_of_passes hloads
  exact ⟨p, hrun, by simpa using hnone⟩

end Line

end ArmaGen
