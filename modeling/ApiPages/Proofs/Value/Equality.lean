import ApiPages.Value.Basic

/-! Equality of settings is decidable: two of them are equal when they are the same part by part. -/
namespace ApiPages.Value

mutual

/-- Whether two values are the same, part by part. -/
def isSame : Value → Value → Bool
  | .scalar s, .scalar s' => s = s'
  | .list items, .list items' => areSame items items'
  | .mapping entries, .mapping entries' => haveSame entries entries'
  | .pair first second, .pair first' second' => isSame first first' && isSame second second'
  | .set members, .set members' => members = members'
  | _, _ => false

def areSame : List Value → List Value → Bool
  | [], [] => true
  | v :: vs, v' :: vs' => isSame v v' && areSame vs vs'
  | _, _ => false

def haveSame : List (Scalar × Value) → List (Scalar × Value) → Bool
  | [], [] => true
  | (key, v) :: rest, (key', v') :: rest' => key = key' && isSame v v' && haveSame rest rest'
  | _, _ => false

end

mutual

private theorem isSame_iff (v v' : Value) : isSame v v' = true ↔ v = v' := by
  cases v <;> cases v' <;> simp [isSame, areSame_iff, haveSame_iff, isSame_iff]

private theorem areSame_iff (vs vs' : List Value) : areSame vs vs' = true ↔ vs = vs' := by
  cases vs <;> cases vs' <;> simp [areSame, areSame_iff, isSame_iff]

private theorem haveSame_iff (entries entries' : List (Scalar × Value)) :
    haveSame entries entries' = true ↔ entries = entries' := by
  cases entries with
  | nil => cases entries' <;> simp [haveSame]
  | cons entry rest =>
    cases entries' with
    | nil => simp [haveSame]
    | cons entry' rest' =>
      obtain ⟨key, v⟩ := entry
      obtain ⟨key', v'⟩ := entry'
      simp [haveSame, isSame_iff v v', haveSame_iff rest rest']

end

instance : DecidableEq Value := fun v v' => decidable_of_iff (isSame v v' = true) (isSame_iff v v')

end ApiPages.Value
