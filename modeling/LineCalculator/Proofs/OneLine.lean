import LineCalculator.Calculator.Loop
import LineCalculator.Proofs.Ends
import LineCalculator.Text.Lines

namespace LineCalculator

namespace Text

def Printable (t : Text) : Prop :=
  ∀ c ∈ t, isPrintable c = true

instance (t : Text) : Decidable (Printable t) :=
  decidable_of_iff (t.all isPrintable = true) List.all_eq_true

variable {t u : Text} {c : Char}

theorem printable_append : Printable (t ++ u) ↔ Printable t ∧ Printable u :=
  List.forall_mem_append

theorem printable_cons : Printable (c :: t) ↔ isPrintable c = true ∧ Printable t :=
  List.forall_mem_cons

theorem Printable.subset (ht : Printable t) (h : ∀ c ∈ u, c ∈ t) : Printable u :=
  fun c hc => ht c (h c hc)

theorem Printable.newline_not_mem (h : Printable t) : '\n' ∉ t := by
  intro hmem
  have hnewline : isPrintable '\n' = false := by decide
  rw [h '\n' hmem] at hnewline
  cases hnewline

theorem lines_flatten {ls : List Text} (h : ∀ l ∈ ls, ∃ body, '\n' ∉ body ∧ l = body ++ ['\n']) :
    lines ls.flatten = ls := by
  induction ls with
  | nil => rfl
  | cons l ls ih =>
      obtain ⟨body, hbody, rfl⟩ := h l List.mem_cons_self
      have hrest := ih fun k hk => h k (List.mem_cons_of_mem _ hk)
      rw [List.flatten_cons, List.append_assoc, List.singleton_append,
        lines_append_newline hbody, hrest]

theorem isPrintable_digitChar : ∀ n < 16, isPrintable (digitChar n) = true := by
  decide

theorem printable_digits (base : Nat) (hbase : 0 < base) (hle : base ≤ 16) (width n : Nat) :
    Printable (digits base width n) := by
  induction width generalizing n with
  | zero => simp [Printable, digits]
  | succ width ih =>
      have hlast : n % base < 16 := Nat.lt_of_lt_of_le (Nat.mod_lt n hbase) hle
      rw [digits, printable_append, printable_cons]
      exact ⟨ih (n / base), isPrintable_digitChar _ hlast, by simp [Printable]⟩

theorem printable_trimZeros (h : Printable t) : Printable (trimZeros t) := by
  apply h.subset
  intro c hc
  rw [trimZeros, List.mem_reverse] at hc
  exact List.mem_reverse.1 ((List.dropWhile_sublist _).subset hc)

theorem printable_withFraction (ht : Printable t) (hu : Printable u) :
    Printable (withFraction t u) := by
  rw [withFraction]
  split
  · exact ht
  · exact printable_append.2 ⟨ht, printable_cons.2 ⟨by decide, hu⟩⟩

theorem printable_escape {mark : Char} (hmark : isPrintable mark = true) (c : Char) :
    Printable (escape mark c) := by
  have hdigits := printable_digits 16 (by decide) (by decide)
  rw [escape]
  by_cases hc : c = mark ∨ c = '\\'
  · rw [if_pos hc]
    rcases hc with rfl | rfl
    · simpa [Printable, hmark] using (by decide : isPrintable '\\' = true)
    · decide
  · rw [if_neg hc]
    repeat' split
    · decide
    · decide
    · decide
    · rename_i hprintable
      simpa [Printable] using hprintable
    · exact printable_append.2 ⟨(by decide : Printable ['\\', 'x']), hdigits 2 c.toNat⟩
    · exact printable_append.2 ⟨(by decide : Printable ['\\', 'u']), hdigits 4 c.toNat⟩
    · exact printable_append.2 ⟨(by decide : Printable ['\\', 'U']), hdigits 8 c.toNat⟩

theorem printable_quoted (t : Text) : Printable (quoted t) := by
  have hmark : isPrintable (quoteMark t) = true := by
    rw [quoteMark]
    split <;> decide
  intro c hc
  simp only [quoted, List.cons_append, List.mem_cons, List.mem_append, List.mem_flatMap,
    List.not_mem_nil, or_false] at hc
  rcases hc with rfl | ⟨d, -, hd⟩ | rfl
  · exact hmark
  · exact printable_escape hmark d c hd
  · exact hmark

end Text

namespace Layout

open Text

variable (l : Layout)

theorem printable_positional (s : Significant) : Printable (l.positional s) := by
  have hdigits := printable_digits 10 (by decide) (by decide) l.places s.coefficient
  rw [positional]
  split
  · refine printable_withFraction (by decide) (printable_append.2 ⟨?_, printable_trimZeros hdigits⟩)
    intro c hc
    rw [List.eq_of_mem_replicate hc]
    decide
  · refine printable_withFraction (hdigits.subset fun c hc => List.mem_of_mem_take hc) ?_
    exact printable_trimZeros (hdigits.subset fun c hc => List.mem_of_mem_drop hc)

theorem printable_scientific (s : Significant) : Printable (l.scientific s) := by
  have hdigits := printable_digits 10 (by decide) (by decide) l.places s.coefficient
  rw [scientific, printable_append]
  constructor
  · refine printable_withFraction (hdigits.subset fun c hc => List.mem_of_mem_take hc) ?_
    exact printable_trimZeros (hdigits.subset fun c hc => List.mem_of_mem_drop hc)
  · rw [exponent, printable_cons, printable_cons]
    refine ⟨by decide, ?_, printable_digits 10 (by decide) (by decide) _ _⟩
    split <;> decide

theorem printable_magnitude (m : Nat) (q : Int) : Printable (l.magnitude m q) := by
  rw [magnitude]
  split
  · decide
  · rw [significant]
    split
    · exact l.printable_positional _
    · exact l.printable_scientific _

theorem printable_sign (negative : Bool) : Printable (sign negative) := by
  cases negative <;> decide

theorem printable_text (x : Double) : Printable (l.text x) := by
  cases x with
  | nan =>
      rw [text]
      decide
  | infinite negative =>
      rw [text, printable_append]
      exact ⟨printable_sign negative, by decide⟩
  | finite negative m q =>
      rw [text, printable_append]
      exact ⟨printable_sign negative, l.printable_magnitude m q⟩

end Layout

theorem printable_generalText (x : Float) : Text.Printable (generalText x) :=
  Layout.general.printable_text _

theorem Counter.printable_of_fail {limit : Int} {c : Counter} {t : Token} {category : Category}
    {message : Text} (h : c.step limit t = .fail category message) : Text.Printable message := by
  unfold step at h
  split at h
  case h_2 =>
    split at h
    · cases h
    · cases h
      decide
  case h_3 | h_10 =>
    cases h
    exact Text.printable_append.2 ⟨by decide, Text.printable_quoted _⟩
  all_goals cases h <;> decide

theorem printable_message {t : Text} {f : Failure} (h : evaluate t = .error f) :
    Text.Printable f.message := by
  have hends := (Lexed.ofLine t).ends_evaluate depthLimit
  rw [show ((Lexed.ofLine t).evaluate depthLimit).result = .error f from h] at hends
  cases hends with
  | zeroDivisor _ _ _ =>
      change Text.Printable Cause.divisionByZero.message
      decide
  | refused _ _ _ hfail _ => exact Counter.printable_of_fail hfail

end LineCalculator
