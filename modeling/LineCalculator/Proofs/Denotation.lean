import LineCalculator.Proofs.Ends
import LineCalculator.Proofs.PhraseRun
import LineCalculator.Reading

namespace LineCalculator

namespace Lexed

def symbols (l : Lexed) : List Symbol :=
  l.lexemes.map Lexeme.symbol

def Denotes (l : Lexed) (limit : Int) (v : Float) : Prop :=
  l.ending = .endOfLine ∧ NestedWithin (max limit 0) l.symbols ∧
    ∃ e : Phrase .expression,
      (∀ p : Phrase .expression, p.symbols = l.symbols ↔ p = e) ∧ e.value? = some v

variable {l : Lexed} {limit : Int} {v : Float}

theorem denotes_of_passes {level : Level} {product : Float}
    (h : (Task.whole limit).Passes .initial l.lexemes ⟨level, [], .operator product⟩)
    (he : l.ending = .endOfLine) : l.Denotes limit (level.total product) := by
  have hread := State.HasRead.initial.passes h
  obtain ⟨outer, inner, ho, ⟨-, hreached⟩, hxs⟩ := hread
  obtain ⟨e, hv, hs⟩ := hreached.exists_expression
  cases ho
  have hsymbols : e.symbols = l.symbols := by
    rw [hs, symbols]
    exact congrArg (List.map Lexeme.symbol) hxs.symm
  refine ⟨he, h.nestedWithin, e, ?_, hv⟩
  intro p
  constructor
  · intro hp
    exact Phrase.symbols_injective (hp.trans hsymbols.symm)
  · intro hp
    rw [hp, hsymbols]

theorem result_of_denotes (h : l.Denotes limit v) : (l.evaluate limit).result = .ok v := by
  obtain ⟨he, hn, e, hunique, hv⟩ := h
  have hs : l.lexemes.map Lexeme.symbol = e.symbols := ((hunique e).2 rfl).symm
  have hroom : max (Task.whole limit).limit 0 -
      ((Task.whole limit).depth ⟨.empty, [], .operand⟩ : Int) = max limit 0 :=
    Int.sub_zero _
  rw [symbols, hs] at hn
  have hreads : (Task.whole limit).ReadsPhrase .empty [] l.lexemes v .expression :=
    Task.reads_phrase e hv hs rfl (fun _ => rfl) (by rwa [hroom])
  obtain ⟨sum, product, hpasses, htotal⟩ := hreads
  rw [result_of_accepts hpasses he, htotal]

theorem result_ok_iff : (l.evaluate limit).result = .ok v ↔ l.Denotes limit v := by
  constructor
  · intro h
    have hends := l.ends_evaluate limit
    rw [h] at hends
    cases hends with
    | value hpasses he => exact denotes_of_passes hpasses he
  · exact result_of_denotes

end Lexed

namespace Reading

def after (r : Reading) (as : List Action) : Reading :=
  as.foldl (fun r a => (r.perform a).2) r

theorem perform_keeps (r : Reading) (a : Action) :
    (r.perform a).2.lexed = r.lexed ∧ (r.perform a).2.limit = r.limit := by
  cases a <;> exact ⟨rfl, rfl⟩

theorem after_keeps (r : Reading) (as : List Action) :
    (r.after as).lexed = r.lexed ∧ (r.after as).limit = r.limit := by
  induction as generalizing r with
  | nil => exact ⟨rfl, rfl⟩
  | cons a as ih =>
      obtain ⟨hlexed, hlimit⟩ := ih (r.perform a).2
      obtain ⟨hlexed', hlimit'⟩ := r.perform_keeps a
      exact ⟨hlexed.trans hlexed', hlimit.trans hlimit'⟩

theorem reply_evaluate (line : Text) (limit : Int) (before : List Action) :
    (((ofLine line limit).after before).perform .evaluate).1 =
      .ofResult ((Lexed.ofLine line).evaluate limit).result := by
  obtain ⟨hlexed, hlimit⟩ := after_keeps (ofLine line limit) before
  simp only [perform, settle, hlexed, hlimit]
  rfl

theorem evaluate_replies_value_iff_denotes (line : Text) (limit : Int) (before : List Action) :
    (∀ v, (((ofLine line limit).after before).perform .evaluate).1 = .value v ↔
      (Lexed.ofLine line).Denotes limit v) ∧
    ((∃ f, (((ofLine line limit).after before).perform .evaluate).1 = .failure f) ↔
      ¬ ∃ v, (Lexed.ofLine line).Denotes limit v) := by
  rw [reply_evaluate]
  cases h : ((Lexed.ofLine line).evaluate limit).result with
  | ok w =>
      have hw := Lexed.result_ok_iff.1 h
      refine ⟨?_, ?_, ?_⟩
      · intro v
        rw [← Lexed.result_ok_iff, h]
        simp [Reply.ofResult]
      · rintro ⟨f, hf⟩
        cases hf
      · intro hnone
        exact absurd ⟨w, hw⟩ hnone
  | error f =>
      have hnone : ∀ v, ¬ (Lexed.ofLine line).Denotes limit v := by
        intro v hv
        rw [Lexed.result_of_denotes hv] at h
        cases h
      refine ⟨?_, ?_, ?_⟩
      · intro v
        simp [Reply.ofResult, hnone v]
      · rintro - ⟨v, hv⟩
        exact hnone v hv
      · intro _
        exact ⟨f, rfl⟩

end Reading

end LineCalculator
