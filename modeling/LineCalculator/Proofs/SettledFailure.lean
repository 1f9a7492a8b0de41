import LineCalculator.Proofs.Ends
import LineCalculator.Proofs.Locality
import LineCalculator.Reading

namespace LineCalculator

theorem Task.run_of_rest {task : Task} {ending : Ending} {offset : Nat} {s : State}
    {xs zs : List Lexeme} {z : Lexeme} (h : (task.run ending offset s xs).rest = z :: zs) :
    ∃ front, xs = front ++ z :: zs ∧ ∀ ending' offset' zs',
      task.run ending' offset' s (front ++ z :: zs') =
        { task.run ending offset s xs with rest := z :: zs' } := by
  induction xs generalizing s with
  | nil => cases h
  | cons x xs ih =>
      cases hx : task.step s x with
      | next s' =>
          rw [run_append_of_next hx] at h
          obtain ⟨front, rfl, hrun⟩ := ih h
          refine ⟨x :: front, rfl, fun ending' offset' zs' => ?_⟩
          rw [run_append_of_next hx, ← hrun ending' offset' zs']
          exact run_append_of_next hx _
      | done v =>
          simp only [run, hx] at h
          cases h
          exact ⟨[], rfl, fun _ _ _ => by simp only [List.nil_append, run, hx]⟩
      | fail f =>
          simp only [run, hx] at h
          cases h
          exact ⟨[], rfl, fun _ _ _ => by simp only [List.nil_append, run, hx]⟩
      | failPast f s' =>
          simp only [run, hx] at h
          subst h
          exact ⟨[x], rfl, fun _ _ _ => by simp only [List.cons_append, List.nil_append, run, hx]⟩

namespace Lexed

variable {l : Lexed} {limit : Int} {z : Lexeme} {zs : List Lexeme}

theorem evaluate_of_ok_of_rest {v : Float} (h : (l.read (.whole limit) l.lexemes).result = .ok v)
    (hrest : (l.read (.whole limit) l.lexemes).rest = z :: zs) :
    l.evaluate limit = { l.read (.whole limit) l.lexemes with
      result := .error ⟨.unexpectedToken unexpectedRest, z.start⟩ } := by
  simp only [evaluate, h, hrest, lookahead, reduceCtorEq, if_false]
  rfl

theorem evaluate_of_rest (h : (l.evaluate limit).rest = z :: zs) :
    ∃ front, l.lexemes = front ++ z :: zs ∧ ∀ (l' : Lexed) zs', l'.lexemes = front ++ z :: zs' →
      l'.evaluate limit = { l.evaluate limit with rest := z :: zs' } := by
  rw [rest_evaluate] at h
  obtain ⟨front, hl, hrun⟩ := Task.run_of_rest h
  refine ⟨front, hl, fun l' zs' hl' => ?_⟩
  have hread : l'.read (.whole limit) l'.lexemes =
      { l.read (.whole limit) l.lexemes with rest := z :: zs' } := by
    rw [hl']
    exact hrun l'.ending l'.offset zs'
  have hresult := congrArg Outcome.result hread
  cases hr : (l.read (.whole limit) l.lexemes).result with
  | error f => rw [evaluate_of_error (hresult.trans hr), evaluate_of_error hr, hread]
  | ok v =>
      have hrest := congrArg Outcome.rest hread
      rw [evaluate_of_ok_of_rest (hresult.trans hr) hrest, evaluate_of_ok_of_rest hr h, hread]

theorem evaluate_append {x y : Text}
    (h : ((ofLine (x ++ y)).lookahead ((ofLine (x ++ y)).evaluate limit).rest).stop < x.length)
    (z : Text) :
    ((ofLine (x ++ z)).evaluate limit).result = ((ofLine (x ++ y)).evaluate limit).result ∧
    ((ofLine (x ++ z)).evaluate limit).depth = ((ofLine (x ++ y)).evaluate limit).depth ∧
    (ofLine (x ++ z)).lookahead ((ofLine (x ++ z)).evaluate limit).rest =
      (ofLine (x ++ y)).lookahead ((ofLine (x ++ y)).evaluate limit).rest := by
  rw [← Nat.zero_add x.length] at h
  cases hrest : ((ofLine (x ++ y)).evaluate limit).rest with
  | nil =>
      rw [hrest] at h
      have hsame : ofLine (x ++ z) = ofLine (x ++ y) := ofText_append_of_offset_lt h z
      rw [hsame, hrest]
      exact ⟨rfl, rfl, rfl⟩
  | cons a zs =>
      rw [hrest] at h
      obtain ⟨front, hl, hevaluate⟩ := evaluate_of_rest hrest
      obtain ⟨zs', hl'⟩ := exists_lexemes_append_of_stop_lt hl h z
      rw [hevaluate (ofLine (x ++ z)) zs' hl']
      exact ⟨rfl, rfl, rfl⟩

end Lexed

namespace Reading

theorem failure_settled_by_front (limit : Int) (x y z : Text) (f : Failure)
    (hfails : ((ofLine (x ++ y) limit).perform .evaluate).1 = .failure f)
    (hcursor : ((ofLine (x ++ y) limit).perform .evaluate).2.cursor < x.length) :
    let r := ((ofLine (x ++ y) limit).perform .evaluate).2
    let r' := ((ofLine (x ++ z) limit).perform .evaluate).2
    ((ofLine (x ++ z) limit).perform .evaluate).1 = .failure f ∧
      r'.cursor = r.cursor ∧ r'.position = r.position ∧ r'.depth = r.depth ∧
      r'.lookahead? = r.lookahead? := by
  obtain ⟨hresult, hdepth, hseen⟩ := Lexed.evaluate_append hcursor z
  have hreply : ((ofLine (x ++ z) limit).perform .evaluate).1 = .failure f := by
    rw [← hfails]
    exact congrArg Reply.ofResult hresult
  exact ⟨hreply, congrArg Scanned.stop hseen, congrArg Scanned.start hseen, hdepth,
    congrArg (fun s : Scanned => some s.token) hseen⟩

theorem failure_settled_inside_group :
    let x := "2*(1/0+ ".toList
    let y := "5)".toList
    let f : Failure := ⟨.divisionByZero, 5⟩
    ((ofLine (x ++ y) 1).perform .evaluate).1 = .failure f ∧
    ((ofLine (x ++ y) 1).perform .evaluate).2.cursor < x.length ∧
    ∀ z : Text, ((ofLine (x ++ z) 1).perform .evaluate).1 = .failure f := by
  intro x y f
  have hfails : ((ofLine (x ++ y) 1).perform .evaluate).1 = .failure f := by decide +kernel
  have hcursor : ((ofLine (x ++ y) 1).perform .evaluate).2.cursor < x.length := by decide +kernel
  exact ⟨hfails, hcursor, fun z => (failure_settled_by_front 1 x y z f hfails hcursor).1⟩

end Reading

end LineCalculator
