import LineCalculator.Text.Run

namespace LineCalculator.Text

-- The four ASCII information separators are not among them.
def blanks : List Run := [
  ⟨0x9, 0xd⟩, ⟨0x20, 0x20⟩, ⟨0x85, 0x85⟩, ⟨0xa0, 0xa0⟩, ⟨0x1680, 0x1680⟩, ⟨0x2000, 0x200a⟩,
  ⟨0x2028, 0x2029⟩, ⟨0x202f, 0x202f⟩, ⟨0x205f, 0x205f⟩, ⟨0x3000, 0x3000⟩]

def isBlank (c : Char) : Bool :=
  Run.cover blanks c

def trimStart (t : Text) : Text :=
  t.dropWhile isBlank

def trim (t : Text) : Text :=
  (trimStart (trimStart t).reverse).reverse

theorem takeWhile_isBlank_append_trimStart (t : Text) : t.takeWhile isBlank ++ trimStart t = t :=
  List.takeWhile_append_dropWhile

theorem trimStart_of_not_isBlank {c : Char} {t : Text} (h : isBlank c = false) :
    trimStart (c :: t) = c :: t := by
  simp [trimStart, h]

theorem trimStart_append {b : Text} (hb : ∀ c ∈ b, isBlank c = true) (t : Text) :
    trimStart (b ++ t) = trimStart t := by
  induction b with
  | nil => rfl
  | cons c b ih =>
      have hc : isBlank c = true := hb c (by simp)
      rw [← ih fun x hx => hb x (by simp [hx])]
      simp [trimStart, hc]

end LineCalculator.Text
