import ArmaGen.Proofs.Emit.Log
import Mathlib.Data.Nat.Find

/-!
# Lines in reports

A report shows the line of a position from the line end before it on, so that on all lines but the
first one the mark below it stands one character behind the position; at the start of the text no
line is shown at all (`Source.exists_report_eq`).
-/

namespace ArmaGen.Source

open Edit Template

variable {s : Source} {k first last stop : Int} {c : Char}

/-- A line of a text, from its first character to the line end after it. -/
structure Line (s : Source) (first last : Int) : Prop where
  nonneg : 0 ≤ first
  start : first = 0 ∨ s.read (first - 1) = .ok '\n'
  inside : ∀ j, first ≤ j → j < last → ∃ c, s.read j = .ok c ∧ c ≠ '\n'
  le : last ≤ s.size
  stop : last = s.size ∨ s.read last = .ok '\n'

lemma exists_line (hk : 0 ≤ k) (hc : s.read k = .ok c) (hne : c ≠ '\n') :
    ∃ first last, s.Line first last ∧ first ≤ k ∧ k < last := by
  classical
  have hlt := lt_size_of_read hk hc
  have hfirst : ∃ m : Nat, k - m = 0 ∨ s.read (k - m - 1) = .ok '\n' := ⟨k.toNat, by omega⟩
  have hlast : ∃ m : Nat, k + m = s.size ∨ s.read (k + m) = .ok '\n' := ⟨s.size - k.toNat, by omega⟩
  have hi := Nat.find_le (n := k.toNat) (h := hfirst) (.inl (by omega))
  have hj := Nat.find_le (n := s.size - k.toNat) (h := hlast) (.inl (by omega))
  have hpos : Nat.find hlast ≠ 0 := fun h => by
    have hspec := Nat.find_spec hlast
    simp [h, hc, hne] at hspec
    omega
  refine ⟨k - Nat.find hfirst, k + Nat.find hlast, ⟨by omega, Nat.find_spec hfirst,
    fun j hj hj' => ?_, by omega, Nat.find_spec hlast⟩, by omega, by omega⟩
  obtain ⟨d, hd⟩ := exists_read_eq (s := s) (k := j) (by omega) (by omega)
  refine ⟨d, hd, fun heq => ?_⟩
  rw [heq] at hd
  rcases Int.lt_trichotomy j k with h | rfl | h
  · refine Nat.find_min hfirst (m := (k - 1 - j).toNat) (by omega) (.inr ?_)
    rwa [show k - ((k - 1 - j).toNat : Int) - 1 = j by omega]
  · cases hc.symm.trans hd
    exact hne rfl
  · refine Nat.find_min hlast (m := (j - k).toNat) (by omega) (.inr ?_)
    rwa [show k + ((j - k).toNat : Int) = j by omega]

/-- A scanner that goes from one position to the next ends where it stops. -/
lemma scan_eq {f : Nat → Int → Scan Int} {a b d : Int} {i n : Nat} (ha : a = b - d * i)
    (hn : i < n) (hstep : ∀ m < i, ∀ n, f (n + 1) (b - d * (m + 1 : Nat)) = f n (b - d * m))
    (hstop : ∀ n, f (n + 1) b = .ok b) : f n a = .ok b := by
  subst ha
  obtain ⟨n, rfl⟩ : ∃ m, n = m + 1 := ⟨n - 1, by omega⟩
  induction i generalizing n with
  | zero => simpa using hstop n
  | succ i ih =>
    obtain ⟨n, rfl⟩ : ∃ m, n = m + 1 := ⟨n - 1, by omega⟩
    rw [hstep i (by omega)]
    exact ih (fun m hm => hstep m (by omega)) n (by omega)

namespace Line

variable (h : s.Line first last) (hk : first ≤ k) (hlt : k < last)

include h hk hlt

lemma lineStart_eq :
    s.lineStart s.steps (k - 1) = .ok (if first = 0 ∧ 0 < k then 0 else first - 1) := by
  obtain ⟨hnonneg, hstart, hinside, hle, -⟩ := h
  generalize hb : (if first = 0 ∧ 0 < k then 0 else first - 1) = b
  refine scan_eq (d := -1) (i := (k - 1 - b).toNat) (by omega) (by unfold steps; omega)
    (fun m hm n => ?_) fun n => ?_
  · obtain ⟨c, hc, hne⟩ := hinside (b - -1 * (m + 1 : Nat)) (by omega) (by omega)
    rw [lineStart, if_pos (by omega), hc, Scan.ok_bind, if_neg (by simpa using hne)]
    congr 1
    omega
  · rw [lineStart]
    split
    · rw [show b = first - 1 by omega, hstart.resolve_left (by omega)]
      rfl
    · rfl

lemma lineStop_eq : s.lineStop s.steps (k + 1) = .ok last := by
  obtain ⟨hnonneg, -, hinside, hle, hstop⟩ := h
  refine scan_eq (d := 1) (i := (last - k - 1).toNat) (by omega) (by unfold steps; omega)
    (fun m hm n => ?_) fun n => ?_
  · obtain ⟨c, hc, hne⟩ := hinside (last - 1 * (m + 1 : Nat)) (by omega) (by omega)
    rw [lineStop, if_pos (by omega), hc, Scan.ok_bind, if_neg (by simpa using hne)]
    congr 1
    omega
  · rw [lineStop]
    split
    · rw [hstop.resolve_left (by omega)]
      rfl
    · rfl

lemma lineEndBefore_eq :
    lineEndBefore s s.steps k = .ok (if first = 0 then 0 else first - 1) := by
  obtain ⟨hnonneg, hstart, hinside, hle, -⟩ := h
  generalize hb : (if first = 0 then 0 else first - 1) = b
  have hb' : first - 1 ≤ b ∧ b ≤ k ∧ 0 ≤ b ∧ (b = first - 1 ∧ first ≠ 0 ∨ b = first ∧ b = 0) := by
    split at hb <;> omega
  refine scan_eq (d := -1) (i := (k - b).toNat) (by omega) (by unfold steps; omega)
    (fun m hm n => ?_) fun n => ?_
  · obtain ⟨c, hc, hne⟩ := hinside (b - -1 * (m + 1 : Nat)) (by omega) (by omega)
    rw [lineEndBefore, hc, Scan.ok_bind, if_neg (by simp [hne]; omega)]
    congr 1
    omega
  · rw [lineEndBefore]
    rcases hb'.2.2.2 with ⟨rfl, hne⟩ | ⟨rfl, rfl⟩
    · rw [hstart.resolve_left hne]
      rfl
    · obtain ⟨c, hc, -⟩ := hinside 0 Int.le_rfl (by omega)
      rw [hc, Scan.ok_bind, if_pos (by simp)]
      rfl

omit hlt in
lemma lineEndAfter_eq (hend : s.read last = .ok '\n') (hle : k ≤ last) (hsize : last < s.size) :
    lineEndAfter s s.steps k = .ok last := by
  obtain ⟨hnonneg, -, hinside, -, -⟩ := h
  refine scan_eq (d := 1) (i := (last - k).toNat) (by omega) (by unfold steps; omega)
    (fun m hm n => ?_) fun n => ?_
  · obtain ⟨c, hc, hne⟩ := hinside (last - 1 * (m + 1 : Nat)) (by omega) (by omega)
    rw [lineEndAfter, hc, Scan.ok_bind, if_neg (by simp [hne]; omega)]
    congr 1
    omega
  · rw [lineEndAfter, hend]
    rfl

end Line

/-- A report about a character shows its line from the line end before it on, and puts the mark as
far behind the start of what is shown as the character stands there; about the first character of
the text it shows no line. The entry that is made for a message about a node whose text is in one
line shows the same, and the first line also for the first character, and so does its rule. -/
theorem exists_report_eq (hk : 0 ≤ k) (hc : s.read k = .ok c) (hne : c ≠ '\n') :
    ∃ first last, s.Line first last ∧ first ≤ k ∧ k < last ∧
      (∀ start what, start = (if first = 0 ∧ 0 < k then 0 else first - 1) →
        s.report k what = .ok ("line " ++ toString ((s.span 0 k).count '\n' + 1) ++
          " in Matlab code:\n" ++ s.slice start last ++ "\n" ++
          String.ofList (List.replicate (k - start).toNat ' ') ++ "^\n" ++ "Expected: " ++ what)) ∧
      ∀ start, last < s.size → start = (if first = 0 then 0 else first - 1) →
        (∀ stop, k ≤ stop → stop ≤ last → linesAround s k stop = .ok (start, last)) ∧
        ∀ (p : Project) text kind value (id log : Nat), s = ofString text → p.Sited text → 0 < id →
          id < p.size → (p.node 1).children[5]? = some log → '%' ∉ value.toList → p.Place id k →
          (∀ own, p.Inherits (·.code?) id own → k + own.length ≤ last) →
          ∃ p' node, p.Knows p' ∧ IsMessage p text kind id value node ∧
            node.cur? = some (k - start) ∧ node.code? = some (s.slice start last) ∧
            (∀ line about texts, '%' ∉ about.toList →
              fill (node.properties line (k - start) (s.slice start last) texts)
                (Rule.messageTemplate "Error" about (k - start).toNat) =
              .ok ("Error" ++ " in class " ++ about ++ " on line " ++
                Layout.ofDigits {} (line < 0) "" (digitsIn 10 line) ++ ":\n" ++
                s.slice start last ++ "\n" ++ blanks (k - start).toNat ++ "^\n" ++ value)) ∧
            (hasChild log node.name p' = .ok true p' ∧ message kind id value p = .ok () p' ∨
              message kind id value p = .ok () (p'.make log node)) := by
  obtain ⟨first, last, h, hfirst, hlast⟩ := exists_line hk hc hne
  refine ⟨first, last, h, hfirst, hlast, fun start what hstart => ?_, fun start hsize hstart => ?_⟩
  · rw [report, h.lineStart_eq hfirst hlast, Scan.ok_bind, h.lineStop_eq hfirst hlast, hstart]
    rfl
  have hlines : ∀ stop, k ≤ stop → stop ≤ last → linesAround s k stop = .ok (start, last) := by
    intro stop hle hstop
    have hend := h.stop.resolve_left (by omega)
    have hafter := h.lineEndAfter_eq (Int.le_trans hfirst hle) hend hstop hsize
    rw [linesAround, h.lineEndBefore_eq hfirst hlast, Scan.ok_bind, if_neg (by omega), hstart]
    exact Scan.bind_eq_ok.2 ⟨_, hafter, rfl⟩
  refine ⟨hlines, fun p text kind value id log hs hp hpos hid hlog hvalue hplace hown => ?_⟩
  subst hs
  obtain ⟨p', node, hknows, hnode, hrun⟩ := exists_message_eq kind hp hpos hid hlog hvalue
  obtain ⟨c, own, first', last', hc, hcode, hshown, hcur, htext⟩ := hnode.shown
  obtain rfl := hc.unique hplace
  cases (hlines _ (by omega) (hown own hcode)).symm.trans hshown
  refine ⟨p', node, hknows, hnode, hcur, htext, fun line about texts habout => ?_, hrun⟩
  rw [fill_message node line _ _ texts habout, hnode.value]

theorem exists_report_eq_sample :
    (ofString "a\nbc").report 3 "d" = .ok "line 2 in Matlab code:\n\nbc\n  ^\nExpected: d" ∧
    ∃ first last, (ofString "a\nbc").Line first last ∧ first ≤ 3 ∧ 3 < last := by
  have hread : (ofString "a\nbc").read 3 = .ok 'c' := by decide
  obtain ⟨first, last, h, hle, hlt, -⟩ := exists_report_eq (by decide) hread (by decide)
  exact ⟨by decide +kernel, first, last, h, hle, hlt⟩

end ArmaGen.Source
