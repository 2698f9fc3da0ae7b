import Decompiled.Proofs.Json.Strings
import Decompiled.Settings.Reader

/-!
# What members give to settings

A member whose key names a setting gives it a value. It is refused if the setting has
one, or if its value is neither true nor false. Any other member does nothing.

* `Settings.valuesOf`: the values that members give to a setting.
* `Settings.TakesAll`: what members do of which none is refused.
* `Settings.Fills`, `Settings.takesAll_iff`: when that is, by the values alone.
* `Settings.Says`: what a setting is for its values.
-/

namespace Decompiled.Settings

open Json Grammar

variable {given given' result : Given} {field : Field} {member : Member} {members : List Member}
  {said : String}

/-! ## Settings that have been given -/

theorem Given.ext_get? (h : ∀ field, given.get? field = given'.get? field) : given = given' := by
  have hfirst := h .exportFullProject
  have hsecond := h .escapeInvalidIdentifiers
  rcases given with ⟨first, second⟩
  rcases given' with ⟨first', second'⟩
  cases hfirst
  cases hsecond
  rfl

theorem Given.get?_set (given : Given) (field other : Field) (value : Bool) :
    (given.set field value).get? other =
      if other = field then some value else given.get? other := by
  cases field <;> cases other <;> rfl

theorem Given.get_settings (given : Given) (field : Field) :
    given.settings.get field = (given.get? field).getD false := by
  cases field <;> rfl

/-- A key names the setting that is called so. -/
theorem ofKey?_bytesOf : Field.ofKey? (bytesOf said) = some field ↔ said = field.name := by
  have hnames : Field.ofKey? (bytesOf said) =
      Field.all.find? fun field => decide (said = field.name) := by
    unfold Field.ofKey?
    congr
    funext field
    rw [Bool.eq_iff_iff, beq_iff_eq, bytesOf_inj, decide_eq_true_eq, eq_comm]
  rw [hnames]
  constructor
  · intro h
    have hfound := List.find?_some h
    exact of_decide_eq_true hfound
  · rintro rfl
    cases field <;> decide

/-! ## What members give -/

/-- The values that members give to a setting, in order. -/
def valuesOf (members : List Member) (field : Field) : List Value :=
  (members.filter fun member => member.key? == some field.name).map Member.value

theorem valuesOf_cons_of_eq (h : member.key? = some field.name) :
    valuesOf (member :: members) field = member.value :: valuesOf members field := by
  simp [valuesOf, h]

theorem valuesOf_cons_of_ne (h : member.key? ≠ some field.name) :
    valuesOf (member :: members) field = valuesOf members field := by
  simp [valuesOf, h]

/-- What a member does to what has been given, if it is not refused. -/
inductive Takes (given : Given) (member : Member) : Given → Prop
  | other : (∀ field : Field, member.key? ≠ some field.name) → Takes given member given
  | setting {field : Field} {value : Bool} :
      member.key? = some field.name → given.get? field = none → member.value = .boolean value →
        Takes given member (given.set field value)

theorem takes_iff_of_unnamed (hother : ∀ field : Field, member.key? ≠ some field.name) :
    Takes given member given' ↔ given' = given := by
  constructor
  · intro h
    cases h with
    | other _ => rfl
    | setting hkey _ _ => exact absurd hkey (hother _)
  · rintro rfl
    exact .other hother

theorem name_inj {named : Field} (h : field.name = named.name) : field = named := by
  revert h
  cases field <;> cases named <;> decide

theorem takes_iff_of_named (hkey : member.key? = some field.name) :
    Takes given member given' ↔ given.get? field = none ∧
      ∃ truth, member.value = .boolean truth ∧ given' = given.set field truth := by
  constructor
  · intro h
    cases h with
    | other hother => exact absurd hkey (hother field)
    | @setting named truth hnamed hnone hvalue =>
        obtain rfl := name_inj (Option.some.inj (hkey.symm.trans hnamed))
        exact ⟨hnone, truth, hvalue, rfl⟩
  · rintro ⟨hnone, truth, hvalue, rfl⟩
    exact .setting hkey hnone hvalue

/-- What members do that are not refused. -/
inductive TakesAll : Given → List Member → Given → Prop
  | nil {given : Given} : TakesAll given [] given
  | cons {given given' result : Given} {member : Member} {members : List Member} :
      Takes given member given' → TakesAll given' members result →
        TakesAll given (member :: members) result

theorem takesAll_nil_iff : TakesAll given [] result ↔ result = given := by
  constructor
  · rintro ⟨⟩
    rfl
  · rintro rfl
    exact .nil

theorem takesAll_cons_iff : TakesAll given (member :: members) result ↔
    ∃ given', Takes given member given' ∧ TakesAll given' members result := by
  constructor
  · rintro (_ | ⟨htakes, hrest⟩)
    exact ⟨_, htakes, hrest⟩
  · rintro ⟨_, htakes, hrest⟩
    exact .cons htakes hrest

/-! ## By the values alone -/

/-- What has been given, with the values of members, is the result: so there is one value
at most for each setting, and it is true or false. -/
def Fills (given : Given) (members : List Member) (result : Given) : Prop :=
  ∀ field, (given.get? field).toList.map Value.boolean ++ valuesOf members field =
    (result.get? field).toList.map Value.boolean

theorem fills_nil_iff : Fills given [] result ↔ result = given := by
  have hone : ∀ x y : Option Bool, x.toList.map Value.boolean ++ [] =
      y.toList.map Value.boolean ↔ x = y := by
    intro x y
    cases x <;> cases y <;> simp
  constructor
  · exact fun h => Given.ext_get? fun field => ((hone _ _).mp (h field)).symm
  · rintro rfl field
    exact (hone _ _).mpr rfl

theorem fills_cons_of_unnamed (hother : ∀ field : Field, member.key? ≠ some field.name) :
    Fills given (member :: members) result ↔ Fills given members result :=
  forall_congr' fun field => by rw [valuesOf_cons_of_ne (hother field)]

/-- Where there is one value at most, a further one is the only one. -/
theorem only_value {given? result? : Option Bool} {value : Value} {values : List Value}
    (h : given?.toList.map Value.boolean ++ value :: values = result?.toList.map Value.boolean) :
    ∃ truth, given? = none ∧ value = .boolean truth ∧ values = [] ∧ result? = some truth := by
  cases given? with
  | some earlier => cases result? <;> simp at h
  | none =>
      cases result? with
      | none => simp at h
      | some truth =>
          simp at h
          exact ⟨truth, rfl, h.1, h.2, rfl⟩

theorem fills_cons_of_named (hkey : member.key? = some field.name) :
    Fills given (member :: members) result ↔ given.get? field = none ∧
      ∃ truth, member.value = .boolean truth ∧ Fills (given.set field truth) members result := by
  have hothers : ∀ other, other ≠ field → member.key? ≠ some other.name :=
    fun other hne habs => hne (name_inj (Option.some.inj (habs.symm.trans hkey)))
  constructor
  · -- The values of the setting itself decide, and all others are as before.
    intro h
    have hvalues := h field
    rw [valuesOf_cons_of_eq hkey] at hvalues
    obtain ⟨truth, hnone, hvalue, hlast, hresult⟩ := only_value hvalues
    refine ⟨hnone, truth, hvalue, fun other => ?_⟩
    rw [Given.get?_set]
    by_cases heq : other = field
    · rw [if_pos heq, heq, hlast, hresult]
      rfl
    · rw [if_neg heq, ← h other, valuesOf_cons_of_ne (hothers other heq)]
  · rintro ⟨hnone, truth, hvalue, h⟩ other
    rw [← h other, Given.get?_set]
    by_cases heq : other = field
    · rw [if_pos heq, heq, valuesOf_cons_of_eq hkey, hvalue, hnone]
      rfl
    · rw [if_neg heq, valuesOf_cons_of_ne (hothers other heq)]

/-- Whether members are refused is seen from the values. -/
theorem takesAll_iff : TakesAll given members result ↔ Fills given members result := by
  induction members generalizing given with
  | nil => rw [takesAll_nil_iff, fills_nil_iff]
  | cons member members ih =>
      rw [takesAll_cons_iff]
      by_cases hnamed : ∃ field : Field, member.key? = some field.name
      · obtain ⟨field, hkey⟩ := hnamed
        simp only [takes_iff_of_named hkey, fills_cons_of_named hkey, ih]
        constructor
        · rintro ⟨_, ⟨hnone, truth, hvalue, rfl⟩, hfills⟩
          exact ⟨hnone, truth, hvalue, hfills⟩
        · rintro ⟨hnone, truth, hvalue, hfills⟩
          exact ⟨_, ⟨hnone, truth, hvalue, rfl⟩, hfills⟩
      · have hother : ∀ field : Field, member.key? ≠ some field.name :=
          fun field hkey => hnamed ⟨field, hkey⟩
        simp only [takes_iff_of_unnamed hother, fills_cons_of_unnamed hother, ih]
        exact exists_eq_left

/-! ## What values say -/

/-- What a setting is for the values that it is given: off for none, and otherwise what
the only one says. -/
def Says (values : List Value) (truth : Bool) : Prop :=
  (values = [] ∧ truth = false) ∨ values = [.boolean truth]

theorem says_iff {values : List Value} {truth : Bool} : Says values truth ↔
    ∃ truth? : Option Bool, values = truth?.toList.map Value.boolean ∧
      truth?.getD false = truth := by
  constructor
  · rintro (⟨rfl, rfl⟩ | rfl)
    · exact ⟨none, rfl, rfl⟩
    · exact ⟨some truth, rfl, rfl⟩
  · rintro ⟨_ | truth', rfl, rfl⟩
    · exact .inl ⟨rfl, rfl⟩
    · exact .inr rfl

theorem exists_says_iff {values : List Value} : (∃ truth, Says values truth) ↔
    values.length ≤ 1 ∧ ∀ value ∈ values, ∃ truth, value = .boolean truth := by
  constructor
  · rintro ⟨truth, ⟨rfl, -⟩ | rfl⟩
    · simp
    · simp
  · rintro ⟨hlength, hboolean⟩
    match values with
    | [] => exact ⟨false, .inl ⟨rfl, rfl⟩⟩
    | [value] =>
        obtain ⟨truth, rfl⟩ := hboolean value List.mem_cons_self
        exact ⟨truth, .inr rfl⟩
    | _ :: _ :: _ => simp at hlength

theorem Says.perm {values values' : List Value} {truth : Bool} (h : Says values truth)
    (hperm : values.Perm values') : Says values' truth := by
  rcases h with ⟨rfl, hoff⟩ | rfl
  · exact .inl ⟨List.nil_perm.mp hperm, hoff⟩
  · exact .inr (List.singleton_perm.mp hperm).symm

end Decompiled.Settings
