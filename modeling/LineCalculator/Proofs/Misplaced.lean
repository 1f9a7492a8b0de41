import LineCalculator.Proofs.Fault
import Mathlib.Control.Monad.Basic

namespace LineCalculator

def Phrase.tokens (e : Phrase .expression) : List Token :=
  e.symbols.map Token.symbol ++ [.ending .endOfLine]

def Lexed.tokensBefore (l : Lexed) (position : Nat) : List Token :=
  (l.scanned.filter fun t => t.start < position).map (·.token)

theorem Phrase.next_of_tokens {e : Phrase .expression} {ts : List Symbol} {t : Token}
    (h : ts.map Token.symbol ++ [t] <+: e.tokens) :
    (t = .ending .endOfLine ∧ e.symbols = ts) ∨
      ∃ x more, t = .symbol x ∧ e.symbols = ts ++ x :: more := by
  obtain ⟨rest, hrest⟩ := h
  rw [tokens] at hrest
  rcases List.eq_nil_or_concat rest with rfl | ⟨more, last, rfl⟩
  · rw [List.append_nil] at hrest
    obtain ⟨hsymbols, hend⟩ := List.append_inj' hrest rfl
    have hsame := (List.map_inj_right fun _ _ => Token.symbol.inj).1 hsymbols
    exact Or.inl ⟨List.singleton_inj.1 hend, hsame.symm⟩
  · rw [List.concat_eq_append, ← List.append_assoc] at hrest
    obtain ⟨hsymbols, -⟩ := List.append_inj' hrest rfl
    obtain ⟨front, back, hsplit, hfront, hback⟩ := List.map_eq_append_iff.1 hsymbols.symm
    obtain ⟨front', back', rfl, hfront', hback'⟩ := List.map_eq_append_iff.1 hfront
    obtain ⟨x, rfl, hx⟩ := List.map_eq_singleton_iff.1 hback'
    have hsame := (List.map_inj_right fun _ _ => Token.symbol.inj).1 hfront'
    refine Or.inr ⟨x, back, hx.symm, ?_⟩
    rw [hsplit, hsame, List.append_assoc, List.singleton_append]

variable {limit : Int}

namespace Counter

theorem not_prefix_tokens {c : Counter} {ts : List Symbol} {t : Token} {category : Category}
    {message : Text} (hts : advance? limit .start ts = some c)
    (ht : c.step limit t = .fail category message) (hcategory : category ≠ .nestingTooDeep)
    (e : Phrase .expression) : ¬ ts.map Token.symbol ++ [t] <+: e.tokens := by
  intro hprefixed
  -- No parenthesis is one too many for a limit as high as the expression is long.
  have hroom := nestedWithin_max_length e.symbols
  have hwhole := advance?_expression hroom
  have hfail := fail_of_limit e.symbols.length ht hcategory
  rcases Phrase.next_of_tokens hprefixed with ⟨rfl, hsymbols⟩ | ⟨x, more, rfl, hsymbols⟩
  · rw [hsymbols] at hroom hwhole hfail
    rw [advance?_start_of_limit hts hroom] at hwhole
    cases hwhole
    cases hfail
  · rw [hsymbols] at hroom hwhole hfail
    obtain ⟨hnested, -⟩ := nestedWithin_append.1 hroom
    rw [advance?_append, advance?_start_of_limit hts hnested, Option.bind_some, advance?,
      hfail] at hwhole
    cases hwhole

end Counter

theorem Task.Passes.prefix_tokens {s : State} {xs : List Lexeme}
    (h : (Task.whole limit).Passes .initial xs s) :
    ∃ e : Phrase .expression, NestedWithin (max limit 0) e.symbols ∧
      (xs.map Lexeme.symbol).map Token.symbol <+: e.tokens := by
  have hread := State.HasRead.initial.passes h
  rw [List.nil_append] at hread
  obtain ⟨rest, hclosing, e, he⟩ := hread.exists_completion
  refine ⟨e, ?_, ?_⟩
  · rw [he]
    exact h.nestedWithin.append_of_closing hclosing
  · rw [Phrase.tokens, he, List.map_append, List.append_assoc]
    exact List.prefix_append _ _

namespace Lexed

variable {l : Lexed} {front : List Lexeme} {t : Scanned} {back : List Scanned}

theorem tokensBefore_start (hstarts : l.scanned.Pairwise fun a b => a.start < b.start)
    (hl : l.scanned = front.map Lexeme.scanned ++ t :: back) :
    l.tokensBefore t.start = (front.map Lexeme.symbol).map Token.symbol := by
  rw [hl, List.pairwise_append, List.pairwise_cons] at hstarts
  obtain ⟨-, ⟨hback, -⟩, hfront⟩ := hstarts
  have hkept : (front.map Lexeme.scanned).filter (fun a => a.start < t.start) =
      front.map Lexeme.scanned := by
    apply List.filter_eq_self.2
    intro a ha
    exact decide_eq_true (hfront a ha t List.mem_cons_self)
  have hdropped : (t :: back).filter (fun a => a.start < t.start) = [] := by
    apply List.filter_eq_nil_iff.2
    intro a ha
    rcases List.mem_cons.1 ha with rfl | ha
    · simp
    · have := hback a ha
      simp only [decide_eq_true_eq]
      omega
  rw [tokensBefore, hl, List.filter_append, hkept, hdropped, List.append_nil]
  simp [Lexeme.scanned]

theorem start_of_endOfLine {line : Text} (ht : t ∈ (ofLine line).scanned)
    (hend : t.token = .ending .endOfLine) : t.start = line.length := by
  rcases List.mem_append.1 ht with hlexeme | hlast
  · obtain ⟨x, -, rfl⟩ := List.mem_map.1 hlexeme
    cases hend
  · rw [List.mem_singleton] at hlast
    subst hlast
    exact offset_ofLine (Token.ending.inj hend)

theorem syntax_failure_at_first_misplaced_token (line : Text) (limit : Int) (f : Failure)
    (h : ((ofLine line).evaluate limit).result = .error f)
    (hkind : f.cause.category ∈
      [Category.unexpectedToken, .invalidCharacter, .missingClosingParen]) :
    ∃ t ∈ (ofLine line).scanned, t.start = f.position ∧
      (t.token = .ending .endOfLine → f.position = line.length) ∧
      (∃ e : Phrase .expression, NestedWithin (max limit 0) e.symbols ∧
        (ofLine line).tokensBefore f.position <+: e.tokens) ∧
      ∀ e : Phrase .expression,
        ¬ (ofLine line).tokensBefore f.position ++ [t.token] <+: e.tokens := by
  have hends := (ofLine line).ends_evaluate limit
  rw [h] at hends
  cases hends with
  | zeroDivisor _ _ _ => simp [Cause.category] at hkind
  | @refused front t back s _ hl _ hpasses hfail hposition =>
      have ht : t ∈ (ofLine line).scanned := by simp [hl]
      have hcategory : f.cause.category ≠ .nestingTooDeep := by
        intro hdeep
        simp [hdeep] at hkind
      rw [hposition, tokensBefore_start (pairwise_scanned_ofLine line) hl]
      refine ⟨t, ht, rfl, start_of_endOfLine ht, hpasses.prefix_tokens, ?_⟩
      intro e
      exact Counter.not_prefix_tokens hpasses.advances hfail hcategory e

theorem syntax_failure_of_dollar :
    ((ofLine "2 * (7 - $".toList).evaluate 200).result =
      .error ⟨.invalidCharacter "Unexpected token".toList '$', 9⟩ ∧
    ∃ t ∈ (ofLine "2 * (7 - $".toList).scanned, t.start = 9 ∧
      (t.token = .ending .endOfLine → 9 = "2 * (7 - $".toList.length) ∧
      (∃ e : Phrase .expression, NestedWithin (max 200 0) e.symbols ∧
        (ofLine "2 * (7 - $".toList).tokensBefore 9 <+: e.tokens) ∧
      ∀ e : Phrase .expression,
        ¬ (ofLine "2 * (7 - $".toList).tokensBefore 9 ++ [t.token] <+: e.tokens := by
  have h : ((ofLine "2 * (7 - $".toList).evaluate 200).result =
      .error ⟨.invalidCharacter "Unexpected token".toList '$', 9⟩ := by
    decide +kernel
  exact ⟨h, syntax_failure_at_first_misplaced_token _ 200 _ h (by decide)⟩

end Lexed

end LineCalculator
