namespace ScriptWeave

abbrev Text := List Char

instance : Coe String Text := ⟨String.toList⟩

instance : LawfulBEq Text := inferInstance

namespace Text

def joinWith (separator : Text) : List Text → Text
  | [] => []
  | [part] => part
  | part :: part' :: parts => part ++ separator ++ joinWith separator (part' :: parts)

theorem joinWith_singleton (separator part : Text) : joinWith separator [part] = part := rfl

theorem joinWith_cons_of_ne_nil (separator part : Text) {parts : List Text} (h : parts ≠ []) :
    joinWith separator (part :: parts) = part ++ separator ++ joinWith separator parts := by
  cases parts with
  | nil => exact absurd rfl h
  | cons part' parts => rfl

/-- The pieces between the characters that pass the test; there is always at least one. -/
def pieces (isCut : Char → Bool) : Text → List Text
  | [] => [[]]
  | c :: rest =>
      if isCut c then [] :: pieces isCut rest
      else
        match pieces isCut rest with
        | [] => [[c]]
        | piece :: more => (c :: piece) :: more

theorem pieces_ne_nil (isCut : Char → Bool) (t : Text) : pieces isCut t ≠ [] := by
  cases t with
  | nil => simp [pieces]
  | cons c rest =>
      simp only [pieces]
      split
      · simp
      · split <;> simp

def afterPrefix? : Text → Text → Option Text
  | [], t => some t
  | _ :: _, [] => none
  | p :: ps, c :: rest => if p = c then afterPrefix? ps rest else none

theorem afterPrefix?_eq_some_iff {lead t rest : Text} :
    afterPrefix? lead t = some rest ↔ t = lead ++ rest := by
  induction lead generalizing t with
  | nil => simp [afterPrefix?]
  | cons p ps ih =>
      cases t with
      | nil => simp [afterPrefix?]
      | cons c t =>
          simp only [afterPrefix?, List.cons_append, List.cons.injEq]
          split
          · rename_i h; simp [h, ih]
          · rename_i h; simp [Ne.symm h]

def ofNat (n : Nat) : Text := Nat.toDigits 10 n

def ofInt : Int → Text
  | .ofNat n => ofNat n
  | .negSucc n => '-' :: ofNat (n + 1)

def isOrdered : Text → Text → Bool
  | [], _ => true
  | _ :: _, [] => false
  | c :: t, d :: u => c < d || (c = d && isOrdered t u)

def lowerAscii (t : Text) : Text := t.map Char.toLower

end Text

end ScriptWeave
