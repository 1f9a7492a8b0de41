import LineCalculator.Token.Basic

namespace LineCalculator

def Symbol.weight : Symbol → Int
  | .lparen => 1
  | .rparen => -1
  | _ => 0

def openCount : List Symbol → Int
  | [] => 0
  | x :: ts => x.weight + openCount ts

def NestedWithin (n : Int) (ts : List Symbol) : Prop :=
  ∀ front, front <+: ts → openCount front ≤ n

@[simp] theorem openCount_nil : openCount [] = 0 := rfl

@[simp] theorem openCount_cons (x : Symbol) (ts : List Symbol) :
    openCount (x :: ts) = x.weight + openCount ts := rfl

@[simp] theorem openCount_append (ts us : List Symbol) :
    openCount (ts ++ us) = openCount ts + openCount us := by
  induction ts with
  | nil => simp
  | cons x ts ih => rw [List.cons_append, openCount_cons, openCount_cons, ih, Int.add_assoc]

theorem Symbol.weight_le (x : Symbol) : x.weight ≤ 1 := by
  cases x <;> simp [weight]

theorem Symbol.eq_lparen_or_weight_nonpos (x : Symbol) : x = .lparen ∨ x.weight ≤ 0 := by
  cases x <;> simp [weight]

theorem openCount_le_length (ts : List Symbol) : openCount ts ≤ ts.length := by
  induction ts with
  | nil => simp
  | cons x ts ih =>
      have hx := x.weight_le
      simp only [openCount_cons, List.length_cons]
      omega

@[simp] theorem nestedWithin_nil {n : Int} : NestedWithin n [] ↔ 0 ≤ n := by
  constructor
  · intro h
    exact h [] List.prefix_rfl
  · intro h front hf
    rw [List.prefix_nil.1 hf]
    exact h

theorem nestedWithin_append {n : Int} {ts us : List Symbol} :
    NestedWithin n (ts ++ us) ↔ NestedWithin n ts ∧ NestedWithin (n - openCount ts) us := by
  constructor
  · intro h
    constructor
    · intro front hf
      exact h front (hf.trans (List.prefix_append ts us))
    · intro front hf
      have hb := h (ts ++ front) ((List.prefix_append_right_inj ts).2 hf)
      rw [openCount_append] at hb
      omega
  · rintro ⟨hts, hus⟩ front hf
    rcases List.prefix_or_prefix_of_prefix hf (List.prefix_append ts us) with hp | ⟨back, rfl⟩
    · exact hts front hp
    · have hb := hus back ((List.prefix_append_right_inj ts).1 hf)
      rw [openCount_append]
      omega

theorem nestedWithin_cons {n : Int} {x : Symbol} {ts : List Symbol} :
    NestedWithin n (x :: ts) ↔ 0 ≤ n ∧ NestedWithin (n - x.weight) ts := by
  constructor
  · intro h
    refine ⟨h [] List.nil_prefix, ?_⟩
    intro front hf
    have hb := h (x :: front) ((List.prefix_cons_inj x).2 hf)
    rw [openCount_cons] at hb
    omega
  · rintro ⟨hn, hts⟩ front hf
    rcases List.prefix_cons_iff.1 hf with rfl | ⟨back, rfl, hb⟩
    · exact hn
    · have := hts back hb
      rw [openCount_cons]
      omega

instance decidableNestedWithin : (n : Int) → (ts : List Symbol) → Decidable (NestedWithin n ts)
  | _, [] => decidable_of_iff _ nestedWithin_nil.symm
  | n, x :: ts =>
      have := decidableNestedWithin (n - x.weight) ts
      decidable_of_iff _ nestedWithin_cons.symm

theorem NestedWithin.nonneg {n : Int} {ts : List Symbol} (h : NestedWithin n ts) : 0 ≤ n :=
  h [] List.nil_prefix

theorem NestedWithin.mono {m n : Int} {ts : List Symbol} (h : NestedWithin m ts) (hmn : m ≤ n) :
    NestedWithin n ts := by
  intro front hf
  exact Int.le_trans (h front hf) hmn

theorem nestedWithin_length (ts : List Symbol) : NestedWithin ts.length ts := by
  intro front hf
  have hl := hf.length_le
  have hb := openCount_le_length front
  omega

theorem nestedWithin_max_length (ts : List Symbol) : NestedWithin (max (ts.length : Int) 0) ts := by
  have hmax : max (ts.length : Int) 0 = ts.length := by omega
  rw [hmax]
  exact nestedWithin_length ts

theorem NestedWithin.append_of_closing {n : Int} {ts us : List Symbol} (h : NestedWithin n ts)
    (hus : ∀ x ∈ us, x.weight ≤ 0) : NestedWithin n (ts ++ us) := by
  induction us generalizing ts with
  | nil => simpa using h
  | cons x us ih =>
      have hx : NestedWithin n (ts ++ [x]) := by
        have hw := hus x (by simp)
        have ho := h ts List.prefix_rfl
        refine nestedWithin_append.2 ⟨h, nestedWithin_cons.2 ⟨by omega, ?_⟩⟩
        rw [nestedWithin_nil]
        omega
      rw [← List.singleton_append, ← List.append_assoc]
      exact ih hx fun y hy => hus y (by simp [hy])

end LineCalculator
