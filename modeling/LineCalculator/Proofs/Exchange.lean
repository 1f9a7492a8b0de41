import LineCalculator.Proofs.DepthLimit
import LineCalculator.Proofs.Juncture
import LineCalculator.Proofs.SettledFailure

namespace LineCalculator

def Text.grouped (u e w : Text) : Text :=
  u ++ '(' :: (e ++ ')' :: w)

section Runs

variable {task : Task} {limit : Int} {level : Level} {groups : List Group} {s : State}
  {x y z : Lexeme} {xs ys es fs zs : List Lexeme} {v : Float} {e f : Phrase .expression}

theorem Task.run_of_same_factor (hy : task.ReadsPhrase level groups (x :: ys) v .factor)
    (hz : task.ReadsPhrase level groups (x :: zs) v .factor) (ending : Ending) (offset : Nat)
    (rest : List Lexeme) :
    task.run ending offset ⟨level, groups, .operand⟩ (x :: ys ++ rest) =
      task.run ending offset ⟨level, groups, .operand⟩ (x :: zs ++ rest) := by
  obtain ⟨front, last, s, hfront, hpasses, hlast⟩ := hy
  obtain ⟨front', last', s', hfront', hpasses', hlast'⟩ := hz
  -- The last parenthesis does what completes a factor of that value, whatever was read inside.
  have hstep := hlast x rfl
  have hstep' := hlast' x rfl
  rw [complete_eq] at hstep hstep'
  rw [hfront, hfront', List.append_assoc, List.append_assoc, hpasses.run_append,
    hpasses'.run_append]
  cases hp : level.multiply? v with
  | none => simp only [List.singleton_append, run, hstep, hstep', hp]
  | some product => simp only [List.singleton_append, run, hstep, hstep', hp]

theorem Task.readsPhrase_group_of_room (hx : x.symbol = .lparen) (hy : y.symbol = .rparen)
    (he : ys.map Lexeme.symbol = e.symbols) (hv : e.value? = some v)
    (hroom : (task.depth ⟨level, groups, .operand⟩ + (ys.length + 2) : Int) ≤ task.limit) :
    task.ReadsPhrase level groups (x :: (ys ++ [y])) v .factor := by
  have hsymbols : (x :: (ys ++ [y])).map Lexeme.symbol = (Phrase.group e).symbols := by
    simp [Phrase.symbols, hx, hy, he]
  have hlength : (Phrase.group e).symbols.length = ys.length + 2 := by
    rw [← hsymbols]
    simp
  refine Task.reads_phrase (.group e) hv hsymbols trivial trivial ?_
  apply (nestedWithin_length _).mono
  rw [hlength]
  omega

theorem State.HasRead.depth_le_length (h : s.HasRead xs) (limit : Int) :
    (Task.whole limit).depth s ≤ xs.length := by
  have hcount := openCount_le_length (xs.map Lexeme.symbol)
  rw [h.openCount, List.length_map] at hcount
  simp only [Task.depth]
  omega

namespace Lexed

theorem exists_failure_of_stops (hpasses : (Task.whole limit).Passes .initial xs s)
    (hx : ∀ s', (Task.whole limit).step s x ≠ .next s') :
    ∃ f, ∀ (l : Lexed) zs, l.lexemes = xs ++ x :: zs → (l.evaluate limit).result = .error f := by
  have hread {l : Lexed} {zs} (hl : l.lexemes = xs ++ x :: zs) :
      l.read (.whole limit) l.lexemes =
        (Task.whole limit).run l.ending l.offset s (x :: zs) := by
    rw [read, hl, hpasses.run_append]
  cases hstep : (Task.whole limit).step s x with
  | next s' => exact absurd hstep (hx s')
  | done v =>
      refine ⟨⟨.unexpectedToken unexpectedRest, x.start⟩, fun l zs hl => ?_⟩
      have hdone : l.read (.whole limit) l.lexemes = ⟨.ok v, x :: zs, (Task.whole limit).depth s⟩ :=
        (hread hl).trans (by simp only [Task.run, hstep])
      have hok : (l.read (.whole limit) l.lexemes).result = .ok v := by rw [hdone]
      have hrest : (l.read (.whole limit) l.lexemes).rest = x :: zs := by rw [hdone]
      rw [evaluate_of_ok_of_rest hok hrest]
  | fail f =>
      refine ⟨f, fun l zs hl => ?_⟩
      exact result_of_error (by rw [hread hl]; simp only [Task.run, hstep])
  | failPast f s' =>
      refine ⟨f, fun l zs hl => ?_⟩
      exact result_of_error (by rw [hread hl]; simp only [Task.run, hstep])

theorem passes_or_exists_failure (limit : Int) (xs : List Lexeme) :
    (∃ s, (Task.whole limit).Passes .initial xs s) ∨
      ∃ f, ∀ (l : Lexed) zs, l.lexemes = xs ++ zs → (l.evaluate limit).result = .error f := by
  rcases Task.passes_or_stops (.whole limit) .initial xs with
    hpasses | ⟨front, x, back, s, rfl, hfront, hx⟩
  · exact Or.inl hpasses
  · obtain ⟨f, hf⟩ := exists_failure_of_stops hfront hx
    exact Or.inr ⟨f, fun l zs hl => hf l (back ++ zs) (by simpa using hl)⟩

theorem evaluate_of_read {l m : Lexed}
    (h : m.read (.whole limit) m.lexemes = l.read (.whole limit) l.lexemes)
    (hending : m.ending = l.ending) (hoffset : m.offset = l.offset) :
    m.evaluate limit = l.evaluate limit := by
  have hlookahead : m.lookahead = l.lookahead := by
    funext rest
    cases rest with
    | nil => simp only [lookahead, hending, hoffset]
    | cons x rest => rfl
  simp only [evaluate, unexpected, h, hlookahead]

def Encloses (l : Lexed) (front : List Lexeme) (start : Nat) (e : Phrase .expression)
    (back : Lexed) : Prop :=
  ∃ inner close, inner.map Lexeme.symbol = e.symbols ∧ close.symbol = .rparen ∧
    l = { back with lexemes :=
      front ++ ⟨.lparen, start, start + 1⟩ :: (inner ++ close :: back.lexemes) }

theorem Encloses.relocated {l back : Lexed} {start : Nat} (h : l.Encloses xs start e back)
    (r : Relocation) (hfront : xs.map r.lexeme = xs)
    (hopen : r.lexeme ⟨.lparen, start, start + 1⟩ = ⟨.lparen, start, start + 1⟩) :
    (r.lexed l).Encloses xs start e (r.lexed back) := by
  obtain ⟨inner, close, hinner, hclose, rfl⟩ := h
  refine ⟨inner.map r.lexeme, r.lexeme close, ?_, ?_, ?_⟩
  · rw [List.map_map, ← hinner]
    exact List.map_congr_left fun x _ => r.symbol_lexeme x
  · rw [r.symbol_lexeme, hclose]
  · simp only [Relocation.lexed, List.map_append, List.map_cons, hfront, hopen]

theorem Encloses.exists_read {l back : Lexed} {start : Nat} (h : l.Encloses xs start e back)
    (hv : e.value? = some v) (hroom : (l.lexemes.length : Int) ≤ limit)
    (hpasses : (Task.whole limit).Passes .initial xs ⟨level, groups, .operand⟩) :
    ∃ ys, (Task.whole limit).ReadsPhrase level groups (⟨.lparen, start, start + 1⟩ :: ys) v .factor ∧
      l.read (.whole limit) l.lexemes = (Task.whole limit).run back.ending back.offset
        ⟨level, groups, .operand⟩ (⟨.lparen, start, start + 1⟩ :: ys ++ back.lexemes) := by
  obtain ⟨inner, close, hinner, hclose, rfl⟩ := h
  have hdepth := (State.HasRead.initial.passes hpasses).depth_le_length limit
  rw [List.nil_append] at hdepth
  simp only [List.length_append, List.length_cons] at hroom
  refine ⟨inner ++ [close], ?_, ?_⟩
  · exact Task.readsPhrase_group_of_room rfl hclose hinner hv (by simp only; omega)
  · rw [read, hpasses.run_append]
    simp only [List.cons_append, List.append_assoc, List.nil_append]

theorem result_of_same_group {l m back : Lexed} {start : Nat} (hl : l.Encloses xs start e back)
    (hm : m.Encloses xs start f back) (he : e.value? = some v) (hf : f.value? = some v)
    (hroom : (l.lexemes.length : Int) ≤ limit) (hroom' : (m.lexemes.length : Int) ≤ limit) :
    (m.evaluate limit).result = (l.evaluate limit).result := by
  rcases passes_or_exists_failure limit xs with ⟨s, hpasses⟩ | ⟨failure, hfails⟩
  · obtain ⟨level, groups, mode⟩ := s
    cases mode with
    | operand =>
        obtain ⟨ys, hys, hread⟩ := hl.exists_read he hroom hpasses
        obtain ⟨zs, hzs, hread'⟩ := hm.exists_read hf hroom' hpasses
        have hsame : m.read (.whole limit) m.lexemes = l.read (.whole limit) l.lexemes := by
          rw [hread, hread']
          exact Task.run_of_same_factor hzs hys ..
        obtain ⟨_, _, -, -, rfl⟩ := hl
        obtain ⟨_, _, -, -, rfl⟩ := hm
        rw [evaluate_of_read hsame rfl rfl]
    | operator product =>
        have hstops : ∀ s', (Task.whole limit).step ⟨level, groups, .operator product⟩
            ⟨.lparen, start, start + 1⟩ ≠ .next s' := by
          intro s' hnext
          cases Task.takes_of_next hnext with
          | additive hx => cases hx
          | multiplicative hx => cases hx
          | rparen hx => cases hx
        obtain ⟨failure, hfails⟩ := exists_failure_of_stops hpasses hstops
        obtain ⟨_, _, -, -, rfl⟩ := hl
        obtain ⟨_, _, -, -, rfl⟩ := hm
        rw [hfails _ _ rfl, hfails _ _ rfl]
  · obtain ⟨_, _, -, -, rfl⟩ := hl
    obtain ⟨_, _, -, -, rfl⟩ := hm
    rw [hfails _ _ rfl, hfails _ _ rfl]

end Lexed

end Runs

def Relocation.resized (i m n : Nat) : Relocation where
  offset p := if p ≤ i then p else p + n - m
  lexeme x := if x.start ≤ i then x else ⟨x.symbol, x.start + n - m, x.stop + n - m⟩
  symbol_lexeme x := by
    split
    · rfl
    · rfl
  start_lexeme x := by
    split
    · rfl
    · rfl

namespace Relocation

variable {i m n p : Nat} {x : Lexeme}

theorem offset_resized_of_le (h : p ≤ i) : (resized i m n).offset p = p :=
  if_pos h

theorem lexeme_resized_of_le (h : x.start ≤ i) : (resized i m n).lexeme x = x :=
  if_pos h

theorem offset_resized_of_lt (h : i < p) : (resized i m n).offset p = p + n - m :=
  if_neg (Nat.not_le.2 h)

theorem lexeme_resized_of_lt (h : i < x.start) :
    (resized i m n).lexeme x = ⟨x.symbol, x.start + n - m, x.stop + n - m⟩ :=
  if_neg (Nat.not_le.2 h)

theorem offset_resized_of_inverse (h : (resized i n m).offset ((resized i m n).offset p) = p)
    (hp : i < p) : (resized i m n).offset p + m = p + n := by
  rw [offset_resized_of_lt hp] at h ⊢
  by_cases hq : p + n - m ≤ i
  · rw [offset_resized_of_le hq] at h
    omega
  · rw [offset_resized_of_lt (Nat.not_le.1 hq)] at h
    omega

end Relocation

namespace Lexed

variable {line u w e : Text} {i m n : Nat}

theorem start_lookahead_le {xs : List Lexeme} (h : xs <:+ (ofLine line).lexemes) :
    ((ofLine line).lookahead xs).start ≤ line.length := by
  obtain ⟨cursor, hscan, -⟩ := shows_ofLine line xs h
  have hfound := scan_foundFrom line cursor
  rw [hscan] at hfound
  exact Nat.le_trans hfound.start_le hfound.stop_le

theorem start_le_length {x : Lexeme} (h : x ∈ (ofLine line).lexemes) : x.start ≤ line.length := by
  obtain ⟨front, back, hl⟩ := List.append_of_mem h
  have hsuffix : x :: back <:+ (ofLine line).lexemes := ⟨front, hl.symm⟩
  exact start_lookahead_le hsuffix

theorem map_resized (line : Text) (m n : Nat) :
    (ofLine line).lexemes.map (Relocation.resized line.length m n).lexeme =
      (ofLine line).lexemes :=
  (List.map_congr_left fun _ hx => Relocation.lexeme_resized_of_le (start_le_length hx)).trans
    (List.map_id _)

theorem lexed_resized (line : Text) (m n : Nat) :
    (Relocation.resized line.length m n).lexed (ofLine line) = ofLine line := by
  have hoffset : (Relocation.resized line.length m n).offset (ofLine line).offset =
      (ofLine line).offset :=
    Relocation.offset_resized_of_le (start_lookahead_le List.nil_suffix)
  rw [Relocation.lexed, map_resized, hoffset]

theorem ofText_resized (i m n : Nat) (w : Text) :
    (Relocation.resized i m n).lexed (ofText (i + 1 + m + 1) w) = ofText (i + 1 + n + 1) w := by
  have hmoved (k : Nat) : ofText k w = (Relocation.behind 0 k).lexed (ofLine w) := by
    rw [ofLine, ← ofText_add (Nat.zero_le 0), Nat.zero_add]
  have hoffset (p : Nat) : (Relocation.resized i m n).offset (p + (i + 1 + m + 1)) =
      p + (i + 1 + n + 1) := by
    rw [Relocation.offset_resized_of_lt (by omega)]
    omega
  have hlexeme (x : Lexeme) : (Relocation.resized i m n).lexeme
      ((Relocation.behind 0 (i + 1 + m + 1)).lexeme x) =
        (Relocation.behind 0 (i + 1 + n + 1)).lexeme x := by
    rw [Relocation.lexeme_behind_of_le (Nat.zero_le _),
      Relocation.lexeme_behind_of_le (Nat.zero_le _),
      Relocation.lexeme_resized_of_lt (by simp only; omega)]
    congr 1
    · simp only
      omega
    · simp only
      omega
  rw [hmoved, hmoved (i + 1 + n + 1)]
  simp only [Relocation.lexed, List.map_map, Relocation.offset_behind_of_le (Nat.zero_le _),
    hoffset]
  congr 1
  exact List.map_congr_left fun x _ => hlexeme x

theorem ofText_behind_paren (w : Text) (he : (ofLine e).ending = .endOfLine) (k : Nat) :
    let back := ofText (k + e.length + 1) w
    ofText k (e ++ ')' :: w) = { back with lexemes :=
      (ofText k e).lexemes ++ ⟨.rparen, k + e.length, k + e.length + 1⟩ :: back.lexemes } := by
  have hending : (ofText k e).ending = .endOfLine := (ending_ofText k e).trans he
  rw [ofText_append_of_stops (Numeral.stopsAt_paren (Or.inr rfl) w), ofText_paren (Or.inr rfl) rfl,
    followedBy]
  simp only [hending]

theorem encloses_grouped {p : Phrase .expression} (w : Text) (hu : (ofLine u).ending = .endOfLine)
    (he : (ofLine e).ending = .endOfLine) (hp : p.symbols = (ofLine e).symbols) :
    (ofLine (u.grouped e w)).Encloses (ofLine u).lexemes u.length p
      (ofText (u.length + 1 + e.length + 1) w) := by
  refine ⟨(ofText (u.length + 1) e).lexemes,
    ⟨.rparen, u.length + 1 + e.length, u.length + 1 + e.length + 1⟩,
    (symbols_ofText _ e).trans hp.symm, rfl, ?_⟩
  rw [ofLine, Text.grouped, ofText_append_of_stops (Numeral.stopsAt_paren (Or.inl rfl) _),
    ofText_paren (Or.inl rfl) rfl, Nat.zero_add, ofText_behind_paren w he, followedBy, ← ofLine, hu]

theorem ofLine_grouped_of_invalid {c : Char} (e w : Text)
    (hu : (ofLine u).ending = .invalid c) : ofLine (u.grouped e w) = ofLine u := by
  rw [ofLine, Text.grouped, ofText_append_of_stops (Numeral.stopsAt_paren (Or.inl rfl) _), followedBy,
    ← ofLine, hu]

theorem evaluate_of_not_tooDeep {l : Lexed} {limit limit' : Int} (h : limit ≤ limit')
    (hdeep : ∀ p, (l.evaluate limit).result ≠ .error (.tooDeep p)) :
    l.evaluate limit' = l.evaluate limit := by
  rcases l.evaluate_of_limit_le h with hsame | ⟨-, x, -, -, -, -, hx⟩
  · exact hsame
  · exact absurd hx (hdeep x.start)

theorem result_grouped {limit : Int} {f : Text} {v : Float}
    (he : ((ofLine e).evaluate limit).result = .ok v)
    (hf : ((ofLine f).evaluate limit).result = .ok v)
    (hdeep : ∀ p, ((ofLine (u.grouped e w)).evaluate limit).result ≠ .error (.tooDeep p))
    (hdeep' : ∀ p, ((ofLine (u.grouped f w)).evaluate limit).result ≠ .error (.tooDeep p)) :
    ((ofLine (u.grouped f w)).evaluate limit).result =
      ((ofLine (u.grouped e w)).evaluate limit).result.mapError
        (Relocation.resized u.length e.length f.length).failure := by
  obtain ⟨hende, -, p, hp, hvp⟩ := result_ok_iff.1 he
  obtain ⟨hendf, -, q, hq, hvq⟩ := result_ok_iff.1 hf
  let r := Relocation.resized u.length e.length f.length
  let l := r.lexed (ofLine (u.grouped e w))
  let m := ofLine (u.grouped f w)
  -- No group of the two lines is too deep for the larger limit.
  let limit' := max limit (max l.lexemes.length m.lexemes.length)
  have hlimit : limit ≤ limit' := Int.le_max_left ..
  have hsame : (m.evaluate limit').result = (l.evaluate limit').result := by
    cases hu : (ofLine u).ending with
    | invalid c =>
        have hl : l = ofLine u := by
          rw [← lexed_resized u e.length f.length, ← ofLine_grouped_of_invalid e w hu]
        rw [hl, ← ofLine_grouped_of_invalid f w hu]
    | endOfLine =>
        have hl : l.Encloses (ofLine u).lexemes u.length p
            (ofText (u.length + 1 + f.length + 1) w) := by
          rw [← ofText_resized u.length e.length]
          exact (encloses_grouped w hu hende ((hp p).2 rfl)).relocated r (map_resized u _ _)
            (Relocation.lexeme_resized_of_le (Nat.le_refl _))
        have hm := encloses_grouped w hu hendf ((hq q).2 rfl)
        exact result_of_same_group hl hm hvp hvq (by omega) (by omega)
  rw [← evaluate_of_not_tooDeep hlimit hdeep, ← evaluate_of_not_tooDeep hlimit hdeep', hsame]
  exact r.result_evaluate _ _

end Lexed

theorem result_of_group_of_same_value (limit : Int) (u w e e' : Text) (v : Float)
    (he : ((Lexed.ofLine e).evaluate limit).result = .ok v)
    (he' : ((Lexed.ofLine e').evaluate limit).result = .ok v)
    (hdeep : ∀ p, ((Lexed.ofLine (u.grouped e w)).evaluate limit).result ≠ .error (.tooDeep p))
    (hdeep' : ∀ p, ((Lexed.ofLine (u.grouped e' w)).evaluate limit).result ≠ .error (.tooDeep p)) :
    (∃ x, ((Lexed.ofLine (u.grouped e w)).evaluate limit).result = .ok x ∧
      ((Lexed.ofLine (u.grouped e' w)).evaluate limit).result = .ok x) ∨
    ∃ f f', ((Lexed.ofLine (u.grouped e w)).evaluate limit).result = .error f ∧
      ((Lexed.ofLine (u.grouped e' w)).evaluate limit).result = .error f' ∧ f'.cause = f.cause ∧
      if f.position ≤ u.length then f'.position = f.position
      else f'.position + e.length = f.position + e'.length := by
  have hmoved := Lexed.result_grouped he he' hdeep hdeep'
  have hback := Lexed.result_grouped he' he hdeep' hdeep
  cases hresult : ((Lexed.ofLine (u.grouped e w)).evaluate limit).result with
  | ok x =>
      rw [hresult] at hmoved
      exact Or.inl ⟨x, rfl, hmoved⟩
  | error f =>
      rw [hresult] at hmoved hback
      rw [hmoved] at hback
      have hinverse := congrArg Failure.position (Except.error.inj hback)
      refine Or.inr ⟨f, _, rfl, hmoved, rfl, ?_⟩
      split
      · exact Relocation.offset_resized_of_le ‹_›
      · exact Relocation.offset_resized_of_inverse hinverse.symm (Nat.not_le.1 ‹_›)

theorem result_of_group_before_zero_divisor :
    let u : Text := "8/".toList
    let w : Text := "/(2-2)+)".toList
    let e : Text := "1+1".toList
    let e' : Text := "2".toList
    ((Lexed.ofLine e).evaluate 1).result = .ok 2 ∧ ((Lexed.ofLine e').evaluate 1).result = .ok 2 ∧
    ((Lexed.ofLine (u.grouped e w)).evaluate 1).result = .error ⟨.divisionByZero, 8⟩ ∧
    ∃ f, ((Lexed.ofLine (u.grouped e' w)).evaluate 1).result = .error f ∧
      f.cause = .divisionByZero ∧ f.position + 3 = 8 + 1 := by
  intro u w e e'
  have he : ((Lexed.ofLine e).evaluate 1).result = .ok 2 := by decide +kernel
  have he' : ((Lexed.ofLine e').evaluate 1).result = .ok 2 := by decide +kernel
  have hresult : ((Lexed.ofLine (u.grouped e w)).evaluate 1).result =
      .error ⟨.divisionByZero, 8⟩ := by decide +kernel
  have hresult' : ((Lexed.ofLine (u.grouped e' w)).evaluate 1).result =
      .error ⟨.divisionByZero, 6⟩ := by decide +kernel
  refine ⟨he, he', hresult, ?_⟩
  rcases result_of_group_of_same_value 1 u w e e' 2 he he' (by rw [hresult]; simp [Failure.tooDeep])
    (by rw [hresult']; simp [Failure.tooDeep]) with ⟨x, hx, -⟩ | ⟨f, f', hf, hf', hcause, hplace⟩
  · rw [hresult] at hx
    cases hx
  · rw [hresult] at hf
    cases hf
    exact ⟨f', hf', hcause, hplace⟩

end LineCalculator
