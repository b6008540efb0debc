import ArmaGen.Proofs.Syntax.Formula
import ArmaGen.Proofs.Syntax.Program
import ArmaGen.Proofs.Text.Continuation

/-!
# Scripts of expressions

The block of the main function of a script holds one statement for each line
(`Script.exists_yields_program`). An expression that ends with groups is left before its last
parentheses, which are passed one by one. The expressions are untyped (`Term.Untyped`): nothing in
them has a datatype of its own.
-/

namespace ArmaGen

open List

/-! ### Untyped expressions -/

namespace Term

/-- Expressions in which nothing has a datatype: no numeral and no range, and only names about which
nothing is known. -/
inductive Untyped : Term → Prop where
  | name {n : Name} (hn : n.isUnknown = true) : Untyped (.name n)
  | call {f : Name} {args : List Term} (hf : f.isUnknown = true) (hargs : ∀ t ∈ args, Untyped t) :
      Untyped (.call f args)
  | paren {t : Term} (ht : Untyped t) : Untyped (.paren t)
  | neg {t : Term} (ht : Untyped t) : Untyped (.neg t)
  | not {t : Term} (ht : Untyped t) : Untyped (.not t)
  | transpose {t : Term} (ht : Untyped t) : Untyped (.transpose t)
  | ctranspose {t : Term} (ht : Untyped t) : Untyped (.ctranspose t)
  | chain {op : Operator} {first : Term} {others : List Term} (hop : op ≠ .colon)
      (hfirst : Untyped first) (hothers : ∀ t ∈ others, Untyped t) :
      Untyped (.chain op first others)

/-- Whether nothing but closing parentheses of an expression is left when it has been read. -/
def isPassed : Term → Bool
  | .paren t | .neg t | .not t => t.isPassed
  | .transpose (.paren _) | .ctranspose (.paren _) => false
  | _ => true

variable {sp : Spacing} {t : Term}

lemma Kept.untyped (h : t.Kept) : t.Untyped := by
  induction h with
  | name hn => exact .name hn
  | call hf _ ih => exact .call hf ih
  | paren _ ih => exact .paren ih
  | @chain op first others hop _ _ ihf iho =>
    refine .chain ?_ ihf iho
    rintro rfl
    cases hop

lemma Kept.isPassed (h : t.Kept) : t.isPassed = true := by
  induction h with
  | paren _ ih => exact ih
  | _ => rfl

lemma exists_unread (sp : Spacing) (h : t.isPassed = true) :
    ∃ cs, t.text sp = cs ++ replicate t.unread ')' := by
  induction t using induct with
  | paren t ih =>
    obtain ⟨cs, hcs⟩ := ih h
    refine ⟨'(' :: cs, ?_⟩
    rw [text, hcs, unread, replicate_succ', ← append_assoc]
    rfl
  | neg t ih =>
    obtain ⟨cs, hcs⟩ := ih h
    exact ⟨'-' :: cs, by rw [text, hcs]; rfl⟩
  | not t ih =>
    obtain ⟨cs, hcs⟩ := ih h
    exact ⟨'~' :: cs, by rw [text, hcs]; rfl⟩
  | transpose t | ctranspose t =>
    cases t with
    | paren => cases h
    | _ => exact ⟨_, (append_nil _).symm⟩
  | _ => exact ⟨_, (append_nil _).symm⟩

/-- An expression does not start with a closing parenthesis: something of it is read. -/
lemma exists_read_part (sp : Spacing) (h : t.isPassed = true) :
    ∃ c cs, t.text sp = c :: cs ++ replicate t.unread ')' ∧ startsTerm c = true := by
  obtain ⟨cs, hcs⟩ := exists_unread sp h
  obtain ⟨c, ds, hhead, hc⟩ := t.exists_head sp
  rw [hcs] at hhead
  cases cs with
  | nil =>
    have hmem : c ∈ replicate t.unread ')' := by
      rw [show replicate t.unread ')' = c :: ds from hhead]
      exact .head _
    rw [eq_of_mem_replicate hmem] at hc
    cases hc
  | cons d cs =>
    obtain ⟨rfl, -⟩ := cons.inj hhead
    exact ⟨d, cs, hcs, hc⟩

/-! ### Keywords -/

lemma exists_joint_append (sp : Spacing) (op : Operator) (cs : List Char) :
    ∃ d ds, sp.joint op ++ cs = d :: ds ∧ isWord d = false := by
  obtain ⟨x, xs, hx⟩ : ∃ x xs, op.symbol.toList = x :: xs := by
    cases op <;> exact ⟨_, _, rfl⟩
  have hword : isWord x = false :=
    Source.isWord_of_mem_symbol (show x ∈ op.symbol.toList by simp [hx])
  obtain ⟨d, ds, hds, hd⟩ := Source.exists_room_append (sp.around op) x
    (xs ++ (room (sp.around op) ++ cs))
  refine ⟨d, ds, ?_, ?_⟩
  · rw [← hds, Spacing.joint, hx]
    simp
  · rcases hd with rfl | rfl
    · rfl
    · exact hword

open Parse

variable {st : Setting} {k : Int}

variable {cs : List Char}

lemma noKeyword_of_char {c : Char} (h : st.source.Shows k (c :: cs)) (hc : isLetter c = false) :
    NoKeyword st k := by
  intro word hword p _
  have hfirst : ∀ w ∈ "end" :: "function" :: Structured.keywords, w.toList ≠ [] ∧
      ∀ y ∈ w.toList.head?, isLetter y = true := by
    decide
  obtain ⟨hne, hletter⟩ := hfirst word hword
  obtain ⟨y, ys, hy⟩ := exists_cons_of_ne_nil hne
  exact readsThen_of_reads_eq_false
    (h.reads_eq_false hy (ne_of_class (hletter y (by simp [hy])) hc))

/-- Text that starts with a name that is free to be used, or with no letter. -/
def StartsFree (cs : List Char) : Prop :=
  (∃ (n : Structured.Ident) (d : Char) (ds : List Char),
    cs = n.name.chars ++ d :: ds ∧ isWord d = false) ∨
  ∃ d ds, cs = d :: ds ∧ isLetter d = false

lemma StartsFree.noKeyword (hcs : StartsFree cs) (h : st.source.Shows k cs) : NoKeyword st k := by
  rcases hcs with ⟨n, d, ds, rfl, hd⟩ | ⟨d, ds, rfl, hd⟩
  · exact n.noKeyword h hd
  · exact noKeyword_of_char h hd

lemma StartsFree.reads_function_eq_false (hcs : StartsFree cs) (h : st.source.Shows k cs) :
    st.source.reads k "function" = false := by
  rcases hcs with ⟨n, d, ds, rfl, hd⟩ | ⟨d, ds, rfl, hd⟩
  · exact n.reads_eq_false h hd (.inr rfl)
  · exact h.reads_eq_false rfl (ne_of_class (by decide) hd)

/-- Expressions that start with a name that is free to be used, or with no name. -/
def leadsFree : Term → Bool
  | .name n | .call n _ => Structured.isFree n.chars
  | .transpose t | .ctranspose t => t.leadsFree
  | .chain _ first _ => first.leadsFree
  | _ => true

lemma startsFree_broken (ht : t.leadsFree = true) (gap : List Char) (sp : Spacing) (b : Breaks)
    {c : Char} (cs : List Char) (hc : isWord c = false) :
    StartsFree (t.broken gap sp b ++ c :: cs) := by
  induction t using induct generalizing b c cs with
  | name n => exact .inl ⟨⟨n, ht⟩, c, cs, rfl, hc⟩
  | numeral d =>
    obtain ⟨x, xs, hx⟩ := exists_cons_of_ne_nil d.nonempty
    have hdigit := d.spelled x (by rw [hx]; exact .head _)
    refine .inr ⟨x, xs ++ c :: cs, by rw [broken_of_isChain rfl, text, hx]; rfl, ?_⟩
    refine Bool.eq_false_iff.mpr fun hletter => ?_
    rw [isDigit_eq_false_of_isLetter hletter] at hdigit
    cases hdigit
  | call f args =>
    refine .inl ⟨⟨f, ht⟩, '(', joined sp args ++ ')' :: c :: cs, ?_, by decide⟩
    rw [broken_of_isChain rfl, text, append_assoc, append_assoc]
    rfl
  | paren | neg | not => exact .inr ⟨_, _, by rw [broken_of_isChain rfl, text]; rfl, by decide⟩
  | transpose t ih =>
    rw [broken_of_isChain rfl, text, append_assoc, ← broken_none]
    exact ih ht .none ('\'' :: c :: cs) (by decide)
  | ctranspose t ih =>
    rw [broken_of_isChain rfl, text, append_assoc, ← broken_none]
    exact ih ht .none (c :: cs) (by decide)
  | chain op first others ih =>
    rw [broken, append_assoc]
    cases others with
    | nil => exact ih ht _ cs hc
    | cons u us =>
      rw [brokenTail, append_assoc, append_assoc]
      obtain ⟨d, ds, hds, hd⟩ := exists_joint_append sp op _
      rw [hds]
      exact ih ht _ ds hd

/-- Something of an expression is read, and what is left are closing parentheses. -/
lemma exists_read_part_broken (gap : List Char) (sp : Spacing) (b : Breaks)
    (h : t.isPassed = true) :
    ∃ c cs, t.broken gap sp b = c :: cs ++ replicate t.unread ')' ∧ startsTerm c = true := by
  cases hchain : t.isChain with
  | false =>
    rw [broken_of_isChain hchain]
    exact exists_read_part sp h
  | true =>
    obtain ⟨c, cs, -, hhead, -, hc⟩ := exists_broken_head gap sp b t
    have hunread : t.unread = 0 := by
      cases t with
      | chain => rfl
      | _ => cases hchain
    refine ⟨c, cs, ?_, hc⟩
    rw [hhead, hunread, replicate_zero, append_nil]

lemma Untyped.leadsFree (ht : t.Untyped) : t.leadsFree = true := by
  have hfree : ∀ {n : Name}, n.isUnknown = true → Structured.isFree n.chars = true := by
    intro n hn
    simp only [Name.isUnknown, Bool.and_eq_true] at hn
    exact hn.1.1
  induction ht with
  | name hn => exact hfree hn
  | call hf => exact hfree hf
  | paren | neg | not => rfl
  | transpose _ ih => exact ih
  | ctranspose _ ih => exact ih
  | chain _ _ _ ih => exact ih

end Term

/-! ### Lines -/

namespace Script

open Source Parse

def lines (sp : Spacing) (ts : List Term) : List Char :=
  ts.flatMap fun t => t.text sp ++ ['\n']

def statements (sp : Spacing) (k : Int) : List Term → List Syntax
  | [] => []
  | t :: ts =>
    .node (statementHead sp k t) [t.tree sp k] :: statements sp (k + (t.text sp).length + 1) ts

/-- An expression that can stand on a line of a script. -/
structure IsLine (sp : Spacing) (t : Term) : Prop where
  layered : t.Layered sp
  untyped : t.Untyped
  passed : t.isPassed = true

variable {sp : Spacing} {st : Setting} {t : Term} {ts : List Term} {k r e : Int} {n m : Nat}
  {made : List Syntax} {P Q : List Syntax → Prop} {rest : List Char}

/-- A block goes on from a position and makes trees of which a property holds. -/
def GoesOn (st : Setting) (k : Int) (P : List Syntax → Prop) : Prop :=
  ∀ n : Nat, st.source.size ≤ n + k → ∃ made r, (resume n k).Yields st made r ∧ P made

lemma GoesOn.next (hsize : 3 ≤ st.source.size - k) (hle : k ≤ e)
    (hp : ∀ n, ∃ made, (piece (inner n) k).Yields st made (.next e) ∧
      ∀ made', Q made' → P (made ++ made'))
    (hrest : GoesOn st (e + 1) Q) : GoesOn st k P := by
  intro n hn
  rcases n with _ | n
  · omega
  obtain ⟨made', r, hr, hQ⟩ := hrest n (by omega)
  obtain ⟨made, hmade, hP⟩ := hp n
  refine ⟨made ++ made', r, ?_, hP made' hQ⟩
  unfold resume
  rw [yields_source_bind, if_neg (by omega)]
  exact hmade.bind hr

lemma goesOn_close (h : st.source.Shows k (replicate m ')' ++ '\n' :: rest))
    (hsize : 3 ≤ st.source.size - (k + m)) (hrest : GoesOn st (k + m + 1) P) :
    GoesOn st k P := by
  induction m generalizing k with
  | zero =>
    rw [Int.natCast_zero, Int.add_zero] at hsize hrest
    refine GoesOn.next hsize Int.le_rfl (fun n => ⟨[], ?_, fun _ h => h⟩) hrest
    unfold piece
    simp only [yields_source_bind, h.read, yields_lift_bind]
    rw [if_neg (by decide), if_pos (by decide), if_neg (by omega)]
    exact yields_pure
  | succ m ih =>
    have hclose : st.source.Shows k (')' :: (replicate m ')' ++ '\n' :: rest)) := by
      rwa [replicate_succ] at h
    rw [show k + ((m + 1 : Nat) : Int) = k + 1 + m by omega] at hsize hrest
    refine GoesOn.next (by omega) Int.le_rfl (fun n => ⟨[], ?_, fun _ h => h⟩)
      (ih hclose.tail hsize hrest)
    refine yields_piece_word h.nonneg hclose.read (.inr rfl) ?_
    rw [yields_wordPiece_iff (Term.noKeyword_of_char hclose (by decide)) hclose.read,
      if_neg (by decide)]
    exact yields_pure

variable {c : Char} {cs : List Char}

/-- A statement is read up to some closing parentheses, and the block goes on with the next line. -/
lemma goesOn_statement (h : st.source.Shows k (c :: cs ++ (replicate m ')' ++ '\n' :: rest)))
    (hc : startsTerm c = true)
    (hfree : Term.StartsFree (c :: cs ++ (replicate m ')' ++ '\n' :: rest)))
    (hstatement : ∃ made, (plainStatement k).Yields st made (k + cs.length) ∧
      ∀ made', Q made' → P (made ++ made')) (hsize : 3 ≤ st.source.size - (k + 1 + cs.length + m))
    (hrest : GoesOn st (k + 1 + cs.length + m + 1) Q) : GoesOn st k P := by
  obtain ⟨made, hyields, hP⟩ := hstatement
  refine GoesOn.next (Q := Q) (by omega) (by omega) (fun n => ⟨made, ?_, hP⟩) ?_
    (e := k + cs.length)
  · exact yields_piece_word h.nonneg h.read (.inl hc) (yields_wordPiece_plain (hfree.noKeyword h)
      h.read (startsExpression_of_startsTerm hc) hyields)
  · rw [show k + (cs.length : Int) + 1 = k + 1 + cs.length by omega]
    have hleft := h.right
    rw [length_cons, Int.natCast_add, Int.natCast_one, Int.add_comm (cs.length : Int),
      ← Int.add_assoc] at hleft
    exact goesOn_close hleft hsize hrest

/-- A line, as it is written, is read as what it adds to what is made of the lines after it. -/
def GoesThrough {ι : Type} (st : Setting) (text : ι → List Char)
    (P : Int → List ι → List Syntax → Prop) (l : ι) : Prop :=
  ∀ ⦃k rest ls⦄, st.source.Fresh k → st.source.Shows k (text l ++ '\n' :: rest) →
    3 ≤ st.source.size - (k + (text l).length) →
    GoesOn st (k + (text l).length + 1) (P (k + (text l).length + 1) ls) →
    GoesOn st k (P k (l :: ls))

lemma goesOn_expression {b : Breaks} (ht : t.Layered sp) (hfree : t.leadsFree = true)
    (hpassed : t.isPassed = true) (hfresh : st.source.Fresh k)
    (h : st.source.Shows k (t.broken readDots sp b ++ '\n' :: rest))
    (hsize : 3 ≤ st.source.size - (k + (t.broken readDots sp b).length))
    (hP : ∀ made, Q made → P (.node
      { kind := .statement, cur? := some k,
        code? := some (String.ofList (t.broken readDots sp b)) } [t.brokenTree sp b k] :: made))
    (hrest : GoesOn st (k + (t.broken readDots sp b).length + 1) Q) : GoesOn st k P := by
  obtain ⟨c, cs, htext, hc⟩ := t.exists_read_part_broken readDots sp b hpassed
  have hlen : (t.broken readDots sp b).length = 1 + cs.length + t.unread := by
    rw [htext, length_append, length_replicate, length_cons, Nat.add_comm 1]
  have hstarts := t.startsFree_broken hfree readDots sp b rest (show isWord '\n' = false by decide)
  have hyields := yields_plainStatement_broken ht hfresh h
  rw [htext, append_assoc] at h hstarts
  refine goesOn_statement h hc hstarts ⟨_, hyields.cast (by omega), hP⟩ (by omega) ?_
  rwa [show k + 1 + (cs.length : Int) + t.unread + 1 =
    k + (t.broken readDots sp b).length + 1 by omega]

lemma IsLine.goesThrough (ht : IsLine sp t) :
    GoesThrough st (Term.text sp) (fun k ts made => made = statements sp k ts) t := by
  intro k rest ts hfresh h hsize hrest
  rw [← Term.broken_none] at h hsize hrest
  refine goesOn_expression ht.layered ht.untyped.leadsFree ht.passed hfresh h hsize ?_ hrest
  rintro _ rfl
  rw [Term.broken_none, Term.brokenTree_none]
  rfl

lemma eq_nil_of_inners (h : Syntax.Inners made) (hos : Syntax.outlines made = []) : made = [] := by
  cases made with
  | nil => rfl
  | cons tree made =>
    cases tree with
    | declare => exact h.1.elim
    | node head items => cases hos

lemma goesOn_end (h : st.source.Shows k (replicate m '\n'))
    (hsize : (st.source.size : Int) = k + m) : GoesOn st k (· = []) := by
  have hends : Resumes st k [] (fun _ => True) := Structured.resumes_text_end h hsize
  intro n hn
  obtain ⟨r, -, made, hyields, hos, hinners⟩ := hends k n (.refl ..) hn
  exact ⟨made, r, hyields, eq_nil_of_inners hinners hos⟩

section Written

variable {ι : Type} {text : ι → List Char} {R : Int → List ι → List Syntax → Prop} {ls : List ι}

lemma goesOn_written (hls : ∀ l ∈ ls, GoesThrough st text R l) (hnil : ∀ k, R k [] [])
    (hfresh : st.source.Fresh k) (hm : 2 ≤ m)
    (h : st.source.Shows k (ls.flatMap (fun l => text l ++ ['\n']) ++ replicate m '\n'))
    (hsize : (st.source.size : Int) = k + (ls.flatMap fun l => text l ++ ['\n']).length + m) :
    GoesOn st k (R k ls) := by
  induction ls generalizing k with
  | nil =>
    intro n hn
    obtain ⟨made, r, hyields, rfl⟩ := goesOn_end h (by simpa using hsize) n hn
    exact ⟨[], r, hyields, hnil k⟩
  | cons l ls ih =>
    rw [flatMap_cons, append_assoc, append_assoc] at h
    rw [flatMap_cons, length_append, length_append, length_singleton] at hsize
    have hline := h.right
    refine hls l (.head _) hfresh h (by omega) ?_
    refine ih (forall_mem_cons.1 hls).2 ?_ hline.tail (by omega)
    exact Term.fresh_after hline rfl

end Written

/-! ### Scripts -/

/-- The main function of a script, whose block was read from a text. -/
def tree (sp : Spacing) (ts : List Term) (code : String) : Syntax :=
  .node { kind := .main, name := "main" } [.leaf { kind := .declares },
    .leaf { kind := .returns }, .leaf { kind := .params },
    .node { kind := .block, cur? := some 0, code? := some code } (statements sp 0 ts)]

lemma GoesOn.yields_script (h : GoesOn st 0 P) (hsize : 3 ≤ st.source.size) :
    ∃ made code stop, (script 0).Yields st [Structured.mainTree
      (.node { kind := .block, cur? := some 0, code? := some code } made)] stop ∧ P made := by
  obtain ⟨made, stop, hyields, hP⟩ := h st.source.steps (by unfold steps; omega)
  unfold resume at hyields
  rw [yields_source_bind, if_neg (by omega)] at hyields
  refine ⟨made, st.source.slice 0 (stop + 1), stop, Structured.yields_script_of_block ?_, hP⟩
  rw [Parse.block, yields_source_bind, blockOf]
  refine Yields.nodeThen ?_
  rwa [Yields.bind_iff ⟨_, rfl⟩]

/-- What is read of lines: the main function of a script, if there are any. -/
lemma exists_yields_written {ι : Type} {text : ι → List Char}
    {R : Int → List ι → List Syntax → Prop} {ls : List ι}
    (hls : ∀ l ∈ ls, GoesThrough st text R l) (hnil : ∀ k, R k [] [])
    (hfirst : ∀ l ∈ ls, ∃ c cs, text l = c :: cs ∧ startsTerm c = true ∧
      ∀ rest, Term.StartsFree (text l ++ '\n' :: rest)) (hm : 2 ≤ m)
    (h : st.source =
      .ofString (String.ofList (ls.flatMap (fun l => text l ++ ['\n']) ++ replicate m '\n'))) :
    ∃ made code, R 0 ls made ∧ Parse.program.Yields st (if ls = [] then [] else
      [Structured.mainTree (.node { kind := .block, cur? := some 0, code? := some code } made)])
      () := by
  have hshow := shows_ofList (ls.flatMap (fun l => text l ++ ['\n']) ++ replicate m '\n')
  have hsize : st.source.size = (ls.flatMap fun l => text l ++ ['\n']).length + m := by
    rw [h]
    simp [Source.size, Source.ofString]
  rw [← h] at hshow
  cases ls with
  | nil =>
    refine ⟨[], "", hnil 0, Structured.yields_program_of_functions ?_⟩
    rw [flatMap_nil, length_nil] at hsize
    exact Structured.yields_functions_end hshow (by omega) (by omega) (by unfold steps; omega)
  | cons l ls =>
    have hfresh : st.source.Fresh 0 := fun h => absurd h (by decide)
    obtain ⟨made, code, stop, hscript, hmade⟩ := (goesOn_written hls hnil hfresh hm hshow
      (by omega)).yields_script (by
        rw [flatMap_cons, length_append, length_append, length_singleton] at hsize
        omega)
    refine ⟨made, code, hmade, ?_⟩
    obtain ⟨c, cs, hhead, hc, hfree⟩ := hfirst l (.head _)
    rw [flatMap_cons, append_assoc, append_assoc] at hshow
    rw [hhead] at hshow hfree
    exact Structured.yields_program_of_script hshow (oneOf_eq_false hc (by decide))
      ((hfree _).reads_function_eq_false hshow) hscript

/-- What is read of a script of expressions. -/
lemma exists_yields_program (hts : ∀ t ∈ ts, IsLine sp t) (hm : 2 ≤ m)
    (h : st.source = .ofString (String.ofList (lines sp ts ++ replicate m '\n'))) :
    ∃ code, Parse.program.Yields st (if ts = [] then [] else [tree sp ts code]) () := by
  have hfirst : ∀ t ∈ ts, ∃ c cs, t.text sp = c :: cs ∧ startsTerm c = true ∧
      ∀ rest, Term.StartsFree (t.text sp ++ '\n' :: rest) := by
    intro t ht
    obtain ⟨c, cs, hhead, hc⟩ := t.exists_head sp
    refine ⟨c, cs, hhead, hc, fun rest => ?_⟩
    rw [← Term.broken_none]
    exact Term.startsFree_broken (hts t ht).untyped.leadsFree readDots sp _ rest (by decide)
  obtain ⟨_, code, rfl, hyields⟩ := exists_yields_written
    (fun t ht => (hts t ht).goesThrough) (fun _ => rfl) hfirst hm h
  exact ⟨code, hyields⟩

/-! ### The text that is read -/

/-- A script as it is written: its lines, and further line ends after the last one. -/
def text (sp : Spacing) (ends : Nat) (ts : List Term) : List Char :=
  intercalate ['\n'] (ts.map (Term.text sp)) ++ replicate ends '\n'

lemma uncontinued_symbol (op : Operator) : Uncontinued op.symbol.toList := by
  cases op with
  | elmul | elementDivision | leftElementDivision | elexp => exact uncontinued_dot (by decide)
  | _ => exact uncontinued_of_not_mem (by decide)

lemma uncontinued_room (n : Nat) : Uncontinued (room n) :=
  uncontinued_of_not_mem fun h => absurd (eq_of_mem_replicate h) (by decide)

lemma uncontinued_joint (sp : Spacing) (op : Operator) : Uncontinued (sp.joint op) :=
  ((uncontinued_room _).append (uncontinued_symbol op)).append (uncontinued_room _)

lemma uncontinued_comma (sp : Spacing) : Uncontinued sp.comma :=
  (uncontinued_of_not_mem (show '.' ∉ [','] by decide)).append (uncontinued_room _)

lemma uncontinued_tailed {sep : List Char} (hsep : Uncontinued sep)
    (hts : ∀ t ∈ ts, Uncontinued (t.text sp)) : Uncontinued (Term.tailed sp sep ts) := by
  induction ts with
  | nil => exact fun _ => rfl
  | cons t ts ih =>
    exact (hsep.append (hts t (.head _))).append (ih (forall_mem_cons.1 hts).2)

lemma uncontinued_text (sp : Spacing) (t : Term) : Uncontinued (t.text sp) := by
  have hword : ∀ {cs : List Char}, (∀ c ∈ cs, isWord c = true) → Uncontinued cs := by
    intro cs hcs
    exact uncontinued_of_not_mem fun h => absurd (hcs _ h) (by decide)
  have hchar : ∀ {c : Char}, c ≠ '.' → Uncontinued [c] := by
    intro c hc
    exact uncontinued_of_not_mem fun h => hc (mem_singleton.mp h).symm
  induction t using Term.induct with
  | name n => exact hword fun _ => n.isWord_of_mem
  | numeral d => exact hword fun c hc => isWord_of_isDigit (d.spelled c hc)
  | call f args ih =>
    have hargs : Uncontinued (Term.joined sp args) := by
      cases args with
      | nil => exact fun _ => rfl
      | cons t ts =>
        exact (ih t (.head _)).append
          (uncontinued_tailed (uncontinued_comma sp) fun u hu => ih u (.tail _ hu))
    exact ((hword fun _ => f.isWord_of_mem).append
      ((hchar (by decide)).append hargs)).append (hchar (by decide))
  | paren t ih =>
    exact ((hchar (by decide)).append ih).append (hchar (by decide))
  | neg t ih =>
    exact (hchar (by decide)).append ih
  | not t ih =>
    exact (hchar (by decide)).append ih
  | transpose t ih =>
    exact ih.append (uncontinued_dot (by decide))
  | ctranspose t ih =>
    exact ih.append (hchar (by decide))
  | chain op first others ihf iho =>
    exact ihf.append (uncontinued_tailed (uncontinued_joint sp op) iho)

lemma uncontinued_replicate (n : Nat) : Uncontinued (replicate n '\n') :=
  uncontinued_of_not_mem fun h => absurd (eq_of_mem_replicate h) (by decide)

lemma continuedAs_intercalate {ι : Type} {ls : List ι} {text read : ι → List Char}
    (h : ∀ l ∈ ls, ContinuedAs (text l) (read l)) :
    ContinuedAs (intercalate ['\n'] (ls.map text)) (intercalate ['\n'] (ls.map read)) := by
  induction ls with
  | nil => exact fun _ => rfl
  | cons l ls ih =>
    obtain ⟨hl, hls⟩ := forall_mem_cons.1 h
    cases ls with
    | nil => simpa using hl
    | cons l' ls =>
      have hend : ContinuedAs ['\n'] ['\n'] := uncontinued_replicate 1
      have := (hl.append hend).append (ih hls)
      simpa only [map_cons, intercalate_cons_cons] using this

lemma exists_intercalate_append (css : List (List Char)) (ends more : Nat) : ∃ m, more ≤ m ∧
      intercalate ['\n'] css ++ replicate ends '\n' ++ replicate (more + 1) '\n' =
        css.flatMap (· ++ ['\n']) ++ replicate m '\n' := by
  have hjoin : ∀ (cs : List Char) (css : List (List Char)),
      intercalate ['\n'] (cs :: css) ++ ['\n'] = (cs :: css).flatMap (· ++ ['\n']) := by
    intro cs css
    induction css generalizing cs with
    | nil => simp [intercalate]
    | cons ds css ih =>
      rw [intercalate_cons_cons, append_assoc, append_assoc, ih ds]
      simp
  cases css with
  | nil =>
    refine ⟨ends + (more + 1), by omega, ?_⟩
    rw [append_assoc, replicate_append_replicate]
    rfl
  | cons cs css =>
    refine ⟨ends + more, by omega, ?_⟩
    rw [append_assoc, replicate_append_replicate,
      show ends + (more + 1) = 1 + (ends + more) by omega, ← replicate_append_replicate,
      ← append_assoc, ← hjoin]
    rfl

lemma exists_programText_written {ι : Type} {ls : List ι} {text read : ι → List Char}
    (ends : Nat) (h : ∀ l ∈ ls, ContinuedAs (text l) (read l)) :
    ∃ m, 2 ≤ m ∧ programText (String.ofList
        (intercalate ['\n'] (ls.map text) ++ replicate ends '\n')) =
      String.ofList (ls.flatMap (fun l => read l ++ ['\n']) ++ replicate m '\n') := by
  obtain ⟨m, hm, htext⟩ := exists_intercalate_append (ls.map read) ends 2
  refine ⟨m, hm, ?_⟩
  have hread := ((continuedAs_intercalate h).append (uncontinued_replicate ends)) []
  rw [append_nil, continued, append_nil] at hread
  rw [flatMap_map] at htext
  rw [programText_eq, String.toList_ofList, hread,
    show "\n\n\n" = String.ofList (replicate 3 '\n') from rfl, ← String.ofList_append, ← htext]

lemma exists_programText_eq (sp : Spacing) (ends more : Nat) (ts : List Term) :
    ∃ m, 2 ≤ m ∧ programText (String.ofList (text sp ends ts ++ replicate more '\n')) =
      String.ofList (lines sp ts ++ replicate m '\n') := by
  rw [text, append_assoc, replicate_append_replicate]
  exact exists_programText_written _ fun t _ => uncontinued_text sp t

end Script

end ArmaGen
