import ArmaGen.Proofs.Project.Site
import ArmaGen.Rule.Program

/-!
# Messages about nodes
-/

namespace ArmaGen

/-! ### Lines around a position -/

namespace Edit

open Template

variable {s : Source} {k start stop : Int} {n : Nat}

lemma exists_lineEndBefore_eq (hk : 0 ≤ k) (hlt : k < s.size) :
    ∃ r, lineEndBefore s n k = .ok r ∧ 0 ≤ r ∧ r ≤ k := by
  induction n generalizing k with
  | zero => exact ⟨k, rfl, hk, Int.le_rfl⟩
  | succ n ih =>
    obtain ⟨c, hc⟩ := Source.exists_read_eq hk hlt
    rw [lineEndBefore, hc]
    show ∃ r, (if (c == '\n' || k == 0) = true then _ else _) = _ ∧ _
    split
    · exact ⟨k, rfl, hk, Int.le_rfl⟩
    next hstop =>
      have hne : k ≠ 0 := by
        rintro rfl
        simp at hstop
      obtain ⟨r, hr, hnonneg, hle⟩ := ih (k := k - 1) (by omega) (by omega)
      exact ⟨r, hr, hnonneg, by omega⟩

lemma exists_lineEndAfter_eq (hk : 0 ≤ k) (hlt : k < s.size) : ∃ r, lineEndAfter s n k = .ok r := by
  induction n generalizing k with
  | zero => exact ⟨k, rfl⟩
  | succ n ih =>
    obtain ⟨c, hc⟩ := Source.exists_read_eq hk hlt
    rw [lineEndAfter, hc]
    show ∃ r, (if (c == '\n' || k == s.size - 1) = true then _ else _ : Except Failure Int) = _
    split
    · exact ⟨k, rfl⟩
    next hstop =>
      have hne : k ≠ s.size - 1 := by
        rintro rfl
        simp at hstop
      exact ih (by omega) (by omega)

lemma exists_linesAround_eq (hstart : 0 ≤ start) (hlt : start < s.size) (hstop : start ≤ stop) :
    ∃ first last, linesAround s start stop = .ok (first, last) ∧ 0 ≤ first ∧ first ≤ start := by
  obtain ⟨first, hfirst, hnonneg, hle⟩ := exists_lineEndBefore_eq hstart hlt
  obtain ⟨last, hlast⟩ : ∃ last, lineEndAfter s s.steps
      (if s.size ≤ stop then s.size - 1 else stop) = .ok last := by
    split
    iterate 2 · exact exists_lineEndAfter_eq (by omega) (by omega)
  refine ⟨first, last, ?_, hnonneg, hle⟩
  rw [linesAround, hfirst]
  show (lineEndAfter s s.steps _ >>= _) = _
  rw [hlast]
  rfl

/-! ### Adding messages -/

variable {p : Project} {text : String} {id log : Nat}

/-- What is added for a message about a node: it shows the lines around the text of the node, with
the place of the node in them. -/
structure IsMessage (p : Project) (text : String) (kind : Kind) (id : Nat) (value : String)
    (node : Node) : Prop where
  kind : node.kind = kind
  name : '%' ∉ node.name.toList
  value : node.value = value
  line : ∃ line, p.OnLine id line ∧ node.line? = some line
  shown : ∃ c own first last, p.Place id c ∧ p.Inherits (·.code?) id own ∧
    linesAround (.ofString text) c (c + own.length) = .ok (first, last) ∧
    node.cur? = some (c - first) ∧ node.code? = some ((Source.ofString text).slice first last)
  cur : ∀ cur, node.cur? = some cur → 0 ≤ cur ∧ cur < text.length
  backend : node.backend = .program
  children : node.children = []

lemma not_mem_toString_int (n : Int) : '%' ∉ (toString n).toList := by
  have hdigits : ∀ m : Nat, '%' ∉ (toString m).toList := fun m h =>
    absurd (isDigit_of_mem_toString h) (by decide)
  cases n with
  | ofNat m => exact hdigits m
  | negSucc m =>
    show '%' ∉ ("-" ++ toString (m + 1)).toList
    rw [String.toList_append, List.mem_append, not_or]
    exact ⟨by decide, hdigits (m + 1)⟩

lemma not_mem_kind_name (kind : Kind) : '%' ∉ kind.name.toList := by
  cases kind <;> decide

lemma logOf_eq (h : p.Sited text) (hpos : 0 < id) (hid : id < p.size)
    (hlog : (p.node 1).children[5]? = some log) : logOf id p = .ok log p :=
  bind_run (program_eq h hpos hid) (child_natCast_eq hlog)

lemma lift_bind {α β : Type} {x : Except Failure α} {a : α} {f : α → Edit β} (hx : x = .ok a) :
    ((liftM x : Edit α) >>= f) p = f a p := by
  rw [hx]
  rfl

/-- The template of an error shows the lines of its entry, and below them the mark and the text. -/
lemma fill_message (node : Node) (line cur : Int) (code : String) (texts : List String)
    {about : String} (habout : '%' ∉ about.toList) (n : Nat) :
    fill (node.properties line cur code texts) (Rule.messageTemplate "Error" about n) =
      .ok ("Error" ++ " in class " ++ about ++ " on line " ++ Layout.ofDigits {} (line < 0) ""
        (digitsIn 10 line) ++ ":\n" ++ code ++ "\n" ++ blanks n ++ "^\n" ++ node.value) := by
  have hline : ∀ c ∈ "line".toList, c ≠ '(' ∧ c ≠ ')' := by decide
  have hcode : ∀ c ∈ "code".toList, c ≠ '(' ∧ c ≠ ')' := by decide
  have hvalue : ∀ c ∈ "value".toList, c ≠ '(' ∧ c ≠ ')' := by decide
  have hblanks : '%' ∉ (blanks n).toList := by
    rw [blanks, String.toList_ofList, List.mem_replicate]
    exact fun h => absurd h.2 (by decide)
  have hplain : ∀ t : String, '%' ∉ t.toList →
      Filled (node.properties line cur code texts) t.toList t.toList := fun _ => filled_plain
  have hmiddle : Filled (node.properties line cur code texts)
      " on line %(line)d:\n%(code)s\n".toList _ :=
    (hplain " on line " (by decide)).append (.number hline rfl
      ((hplain ":\n" (by decide)).append (.text hcode rfl (hplain "\n" (by decide)))))
  have hend : Filled (node.properties line cur code texts) "^\n%(value)s".toList _ :=
    (hplain "^\n" (by decide)).append (.text hvalue rfl .nil)
  have hfilled := (((((hplain "Error" (by decide)).append (hplain " in class " (by decide))).append
    (hplain about habout)).append hmiddle).append (hplain _ hblanks)).append hend
  simp only [← String.toList_append] at hfilled
  refine hfilled.fill_eq.trans ?_
  simp only [String.ofList_append, String.ofList_toList, List.append_nil, String.append_assoc,
    Property.shown]

lemma exists_message_eq (kind : Kind) {value : String} (h : p.Sited text) (hpos : 0 < id)
    (hid : id < p.size) (hlog : (p.node 1).children[5]? = some log) (hvalue : '%' ∉ value.toList) :
    ∃ p' node, p.Knows p' ∧ IsMessage p text kind id value node ∧
      (hasChild log node.name p' = .ok true p' ∧ message kind id value p = .ok () p' ∨
        message kind id value p = .ok () (p'.make log node)) := by
  obtain ⟨c, hplace⟩ := h.exists_inherits h.cur_root hid
  obtain ⟨own, hown⟩ := h.exists_inherits h.code_root hid
  obtain ⟨line, hline⟩ := h.exists_onLine hid
  obtain ⟨hc, hc'⟩ := h.place_lt hplace hid
  obtain ⟨props, p1, hprops, h1, -⟩ := exists_properties_eq hid h (.refl p)
  have hfill : fill props value = .ok value := by
    rw [(filled_plain hvalue).fill_eq, String.ofList_toList]
  obtain ⟨p2, hcur, h2⟩ := finds_cur h1 hid hplace
  obtain ⟨p3, hcode, h3⟩ := finds_code h2 hid hown
  obtain ⟨p4, hrun4, h4⟩ := finds_line h3 hid hline
  have hid1 : id < p1.size := h1.size.symm ▸ hid
  have hlog3 : logOf id p3 = .ok log p3 :=
    logOf_eq (h.knows h3) hpos (h3.size.symm ▸ hid) (by rw [h3.children, hlog])
  have hsize : c < (Source.ofString text).size := by
    simpa [Source.size, Source.ofString, String.length_toList] using hc'
  obtain ⟨first, last, hlines, hfirst, hle⟩ :=
    exists_linesAround_eq hc hsize (show c ≤ c + own.length by omega)
  let name := (p3.node id).kind.name ++ ":" ++ toString c
  have hname : '%' ∉ name.toList := by
    rw [String.toList_append, String.toList_append]
    simp only [List.mem_append, not_or]
    exact ⟨⟨not_mem_kind_name _, by decide⟩, not_mem_toString_int c⟩
  let made line : Node :=
    { kind, name, value, line? := some line, cur? := some (c - first),
      code? := some ((Source.ofString text).slice first last), backend := .program,
      extras := [(.cls, .text (dropChars 10 name))] }
  have hmade : IsMessage p text kind id value (made line) := by
    refine ⟨rfl, hname, rfl, ⟨line, hline, rfl⟩,
      ⟨c, own, first, last, hplace, hown, hlines, rfl, rfl⟩, ?_, rfl, rfl⟩
    rintro _ ⟨⟩
    omega
  -- the message is added after all look-ups but that of the line
  have hrun : message kind id value p = (do
      if !(← hasChild log name) then
        let _ ← make log (made (← Edit.line id))) p3 := by
    refine bind_run hprops ((lift_bind hfill).trans ?_)
    refine bind_run (program_eq (h.knows h1) hpos hid1) ?_
    refine bind_run (code_program_eq (h.knows h1)) ?_
    refine bind_run hcur (bind_run hcode ?_)
    refine (lift_bind hlines).trans ?_
    exact bind_ok hlog3
  rw [hrun]
  obtain ⟨there, hthere⟩ : ∃ there, hasChild log name p3 = .ok there p3 := ⟨_, rfl⟩
  rw [bind_ok hthere]
  cases there with
  | true => exact ⟨p3, made line, h3, hmade, .inl ⟨hthere, rfl⟩⟩
  | false => exact ⟨p4, made line, h4, hmade, .inr (bind_ok hrun4)⟩

end Edit

end ArmaGen
