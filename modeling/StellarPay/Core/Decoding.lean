import StellarPay.Core.Platform

/-!
# Reading structs from JSON

How the `Deserialize` that is derived for a struct reads a value: from an object by the names of the
fields, in any order and past the names it does not know, or from an array by their positions. A
value may say more than another one, and a reader that only looks at known names does not see the
difference.
-/

namespace StellarPay

/-- A text. -/
def Value.asString : Value → Option String
  | .string text => some text
  | _ => none

/-- A truth value. -/
def Value.asBool : Value → Option Bool
  | .bool value => some value
  | _ => none

/-- An unsigned number below a bound. -/
def Value.asBelow (bound : Nat) : Value → Option Nat
  | .number value => if 0 ≤ value ∧ value < bound then some value.toNat else none
  | _ => none

section Readers

variable {α : Type}

/-- A list of values that can all be read. -/
def Value.asList (read : Value → Option α) : Value → Option (List α)
  | .array values => values.mapM read
  | _ => none

/-- What a struct is read from: named values, with the names that the text repeats, or values in the
order of the fields. -/
inductive Source where
  | named (fields : List (String × Value))
  | positional (values : List Value)

/-- A value as the source of a struct with this number of fields. -/
def Value.source (count : Nat) : Value → Option Source
  | .object fields => some (.named fields)
  | .array values => if values.length = count then some (.positional values) else none
  | _ => none

/-- The values under a name. -/
def valuesOf (name : String) (fields : List (String × Value)) : List Value :=
  fields.filterMap fun field => if field.1 = name then some field.2 else none

namespace Source

/-- Read a field, which has a default or not. -/
def field (source : Source) (position : Nat) (name : String) (read : Value → Option α)
    (missing : Option α) : Option α :=
  match source with
  | .named fields =>
      match valuesOf name fields with
      | [] => missing
      | [value] => read value
      -- A name that is repeated is refused.
      | _ => none
  | .positional values => values[position]?.bind read

/-- A field that has to be there. -/
def required (source : Source) (position : Nat) (name : String) (read : Value → Option α) :
    Option α :=
  source.field position name read none

/-- A field of type `Option`, which may be missing or null. -/
def optional (source : Source) (position : Nat) (name : String) (read : Value → Option α) :
    Option (Option α) :=
  source.field position name
    (fun
      | .null => some none
      | value => (read value).map some)
    (some none)

end Source

end Readers

section Extensions

variable {known : String → Prop}

mutual

/-- The second value says what the first one does, and perhaps more: objects may have their fields
in another order, and others under names that are not known. -/
inductive Value.Extended (known : String → Prop) : Value → Value → Prop where
  | same (value : Value) : Value.Extended known value value
  | array {values values' : List Value} (h : ExtendedValues known values values') :
      Value.Extended known (.array values) (.array values')
  | object {fields middle extra fields' : List (String × Value)}
      (h : ExtendedFields known fields middle) (hextra : ∀ field ∈ extra, ¬ known field.1)
      (hperm : fields'.Perm (middle ++ extra)) :
      Value.Extended known (.object fields) (.object fields')

/-- Values that are extended one by one. -/
inductive ExtendedValues (known : String → Prop) : List Value → List Value → Prop where
  | nil : ExtendedValues known [] []
  | cons {value value' : Value} {values values' : List Value}
      (h : Value.Extended known value value') (hrest : ExtendedValues known values values') :
      ExtendedValues known (value :: values) (value' :: values')

/-- Fields whose values are extended one by one. -/
inductive ExtendedFields (known : String → Prop) :
    List (String × Value) → List (String × Value) → Prop where
  | nil : ExtendedFields known [] []
  | cons {name : String} {value value' : Value} {fields fields' : List (String × Value)}
      (h : Value.Extended known value value') (hrest : ExtendedFields known fields fields') :
      ExtendedFields known ((name, value) :: fields) ((name, value') :: fields')

end

/-- A reader that does not see what is added under other names. -/
def Respects {α : Type} (known : String → Prop) (read : Value → Option α) : Prop :=
  ∀ value value', Value.Extended known value value' → read value = read value'

/-- Sources that are extended. -/
inductive Source.Extended (known : String → Prop) : Source → Source → Prop where
  | named {fields middle extra fields' : List (String × Value)}
      (h : ExtendedFields known fields middle) (hextra : ∀ field ∈ extra, ¬ known field.1)
      (hperm : fields'.Perm (middle ++ extra)) :
      Source.Extended known (.named fields) (.named fields')
  | positional {values values' : List Value} (h : ExtendedValues known values values') :
      Source.Extended known (.positional values) (.positional values')

/-- Every value extends itself, also field by field. -/
theorem ExtendedFields.refl (fields : List (String × Value)) :
    ExtendedFields known fields fields := by
  induction fields with
  | nil => exact .nil
  | cons field rest ih => exact .cons (.same field.2) ih

theorem ExtendedValues.refl (values : List Value) : ExtendedValues known values values := by
  induction values with
  | nil => exact .nil
  | cons value rest ih => exact .cons (.same value) ih

/-- Extending keeps the number of values. -/
theorem ExtendedValues.length_eq {values values' : List Value}
    (h : ExtendedValues known values values') : values'.length = values.length := by
  induction values generalizing values' with
  | nil =>
      cases h
      rfl
  | cons value rest ih =>
      cases h with
      | cons _ hrest => rw [List.length_cons, List.length_cons, ih hrest]

/-- The values under a name are extended one by one. -/
theorem ExtendedFields.values_of {fields fields' : List (String × Value)}
    (h : ExtendedFields known fields fields') (name : String) :
    ExtendedValues known (valuesOf name fields) (valuesOf name fields') := by
  induction fields generalizing fields' with
  | nil =>
      cases h
      exact .nil
  | cons field rest ih =>
      cases h with
      | @cons other value value' _ rest' hvalue hrest =>
          by_cases hname : other = name
          · simp only [valuesOf, List.filterMap_cons, hname, if_true]
            exact .cons hvalue (ih hrest)
          · simp only [valuesOf, List.filterMap_cons, hname, if_false]
            exact ih hrest

/-- Of fields under unknown names a known name has no value. -/
theorem values_of_unknown {extra : List (String × Value)}
    (hextra : ∀ field ∈ extra, ¬ known field.1) {name : String} (hname : known name) :
    valuesOf name extra = [] := by
  refine List.filterMap_eq_nil_iff.mpr fun field hfield => if_neg ?_
  rintro rfl
  exact hextra field hfield hname

/-- Up to their order, the values under a known name are those of the fields that were extended. -/
theorem values_of_perm {middle extra fields : List (String × Value)}
    (hextra : ∀ field ∈ extra, ¬ known field.1) (hperm : fields.Perm (middle ++ extra))
    {name : String} (hname : known name) :
    (valuesOf name fields).Perm (valuesOf name middle) := by
  have happend := hperm.filterMap fun field => if field.1 = name then some field.2 else none
  have hnone := values_of_unknown hextra hname
  rw [valuesOf] at hnone
  rwa [List.filterMap_append, hnone, List.append_nil] at happend

/-- A value and its extension are both a source, or neither is. -/
theorem Value.Extended.source {value value' : Value} (h : value.Extended known value')
    (count : Nat) :
    (value.source count = none ∧ value'.source count = none) ∨
      ∃ source source', value.source count = some source ∧ value'.source count = some source' ∧
        source.Extended known source' := by
  cases h with
  | same =>
      cases value with
      | object fields =>
          have hnone : ∀ field ∈ ([] : List (String × Value)), ¬ known field.1 := fun _ => nofun
          exact .inr ⟨_, _, rfl, rfl, .named (.refl fields) hnone (by simp)⟩
      | array values =>
          by_cases hlength : values.length = count
          · exact .inr ⟨_, _, if_pos hlength, if_pos hlength, .positional (.refl values)⟩
          · exact .inl ⟨if_neg hlength, if_neg hlength⟩
      | _ => exact .inl ⟨rfl, rfl⟩
  | @array values values' h =>
      by_cases hlength : values.length = count
      · exact .inr ⟨_, _, if_pos hlength, if_pos (h.length_eq.trans hlength), .positional h⟩
      · exact .inl ⟨if_neg hlength, if_neg (h.length_eq ▸ hlength)⟩
  | object h hextra hperm => exact .inr ⟨_, _, rfl, rfl, .named h hextra hperm⟩

section Readers

variable {α : Type}

/-- A known field of a source is read from its extension as well, with the same result. -/
theorem Source.Extended.field {source source' : Source} (h : source.Extended known source')
    {position : Nat} {name : String} {read : Value → Option α} {missing : Option α}
    (hname : known name) (hread : Respects known read) :
    source.field position name read missing = source'.field position name read missing := by
  cases h with
  | @named fields middle extra fields' h hextra hperm =>
      have hvalues := h.values_of name
      have hlater := values_of_perm hextra hperm hname
      simp only [Source.field]
      cases hfields : valuesOf name fields with
      | nil =>
          rw [hfields] at hvalues
          generalize valuesOf name middle = values at hvalues hlater
          cases hvalues
          rw [hlater.eq_nil]
      | cons value rest =>
          rw [hfields] at hvalues
          generalize valuesOf name middle = values at hvalues hlater
          cases hvalues with
          | @cons _ value' _ rest' hvalue hrest =>
              cases hrest with
              | nil =>
                  rw [List.perm_singleton.mp hlater]
                  exact hread value value' hvalue
              | cons _ _ =>
                  -- A repeated name stays repeated.
                  have hlength := hlater.length_eq
                  generalize valuesOf name fields' = values at hlength
                  match values, hlength with
                  | _ :: _ :: _, _ => rfl
  | @positional values values' h =>
      simp only [Source.field]
      induction values generalizing values' position with
      | nil =>
          cases h
          rfl
      | cons value rest ih =>
          cases h with
          | @cons _ value' _ rest' hvalue hrest =>
              cases position with
              | zero => exact hread value value' hvalue
              | succ position => exact ih hrest

/-- A field that has to be there, likewise. -/
theorem Source.Extended.required {source source' : Source} (h : source.Extended known source')
    {position : Nat} {name : String} {read : Value → Option α} (hname : known name)
    (hread : Respects known read) :
    source.required position name read = source'.required position name read :=
  h.field hname hread

/-- An optional field, likewise. -/
theorem Source.Extended.optional {source source' : Source} (h : source.Extended known source')
    {position : Nat} {name : String} {read : Value → Option α} (hname : known name)
    (hread : Respects known read) :
    source.optional position name read = source'.optional position name read := by
  refine h.field hname fun value value' hvalue => ?_
  cases hvalue with
  | same => rfl
  | array hvalues => exact congrArg (Option.map some) (hread _ _ (.array hvalues))
  | object hfields hextra hperm =>
      exact congrArg (Option.map some) (hread _ _ (.object hfields hextra hperm))

/-- Texts, truth values and numbers say nothing more. -/
theorem respects_as_string : Respects known Value.asString := by
  intro value value' h
  cases h <;> rfl

theorem respects_as_bool : Respects known Value.asBool := by
  intro value value' h
  cases h <;> rfl

theorem respects_as_below (bound : Nat) : Respects known (Value.asBelow bound) := by
  intro value value' h
  cases h <;> rfl

/-- A list is read element by element. -/
theorem Respects.as_list {read : Value → Option α} (hread : Respects known read) :
    Respects known (Value.asList read) := by
  intro value value' h
  cases h with
  | same => rfl
  | object => rfl
  | @array values values' h =>
      simp only [Value.asList]
      induction values generalizing values' with
      | nil =>
          cases h
          rfl
      | cons value rest ih =>
          cases h with
          | cons hvalue hrest =>
              rw [List.mapM_cons, List.mapM_cons, hread _ _ hvalue, ih hrest]

/-- A struct is read from its source. -/
theorem Respects.of_source {count : Nat} {read : Source → Option α}
    (hread : ∀ source source', source.Extended known source' → read source = read source') :
    Respects known fun value => (value.source count).bind read := by
  intro value value' h
  rcases h.source count with ⟨hnone, hnone'⟩ | ⟨source, source', hsource, hsource', hextended⟩
  · simp only [hnone, hnone']
  · simp only [hsource, hsource', Option.bind_some]
    exact hread source source' hextended

/-- The reader gets this result from the value, and from whatever extends it. -/
def ReadsFrom (known : String → Prop) (read : Value → Option α) (value : Value) (result : α) :
    Prop :=
  ∀ value', value.Extended known value' → read value' = some result

/-- What is read from a text: it says nothing more. -/
theorem ReadsFrom.of_string {read : Value → Option α} {text : String} {result : α}
    (h : read (.string text) = some result) : ReadsFrom known read (.string text) result := by
  intro value' hextended
  cases hextended
  exact h

/-- A known name that has one value has one in every extension, which extends it. -/
theorem Source.Extended.value_of {fields : List (String × Value)} {source' : Source}
    (h : (Source.named fields).Extended known source') (name : String) (value : Value)
    (hname : known name) (hvalue : valuesOf name fields = [value]) :
    ∃ fields' value', source' = .named fields' ∧ valuesOf name fields' = [value'] ∧
      value.Extended known value' := by
  cases h with
  | @named _ middle extra fields' h hextra hperm =>
      have hvalues := h.values_of name
      have hlater := values_of_perm hextra hperm hname
      rw [hvalue] at hvalues
      generalize valuesOf name middle = values at hvalues hlater
      cases hvalues with
      | @cons _ value' _ _ hextended hrest =>
          cases hrest
          exact ⟨fields', value', rfl, List.perm_singleton.mp hlater, hextended⟩

/-- The only value under a name is the one that is looked up. -/
theorem lookup_of_values_of {fields : List (String × Value)} {name : String} {value : Value}
    (h : valuesOf name fields = [value]) : fields.lookup name = some value := by
  induction fields with
  | nil => cases h
  | cons field rest ih =>
      obtain ⟨other, first⟩ := field
      by_cases hname : other = name
      · subst hname
        simp only [valuesOf, List.filterMap_cons, if_true] at h
        rw [List.lookup_cons_self, (List.cons.inj h).1]
      · simp only [valuesOf, List.filterMap_cons, hname, if_false] at h
        rw [List.lookup_cons, beq_false_of_ne (Ne.symm hname)]
        exact ih h

/-- A field of an object that is there once is a field of every extension. -/
theorem Value.Extended.field_of {fields : List (String × Value)} {value' : Value}
    (h : (Value.object fields).Extended known value') (name : String) (value : Value)
    (hname : known name) (hvalue : valuesOf name fields = [value]) :
    ∃ field', value'.field name = some field' ∧ value.Extended known field' := by
  rcases h.source 0 with ⟨hnone, -⟩ | ⟨_, source', ⟨⟩, hsource', hextended⟩
  · cases hnone
  obtain ⟨fields', field', rfl, hvalues, hfield⟩ := hextended.value_of name value hname hvalue
  refine ⟨field', ?_, hfield⟩
  cases value' with
  | object others =>
      cases hsource'
      exact lookup_of_values_of hvalues
  | array values =>
      simp only [Value.source] at hsource'
      split at hsource' <;> cases hsource'
  | _ => cases hsource'

/-- A field with one value is read from every extension. -/
theorem Source.Extended.reads {fields : List (String × Value)} {source' : Source}
    (h : (Source.named fields).Extended known source') {position : Nat} (name : String)
    {read : Value → Option α} {missing : Option α} {value : Value} {result : α} (hname : known name)
    (hvalue : valuesOf name fields = [value]) (hread : ReadsFrom known read value result) :
    source'.field position name read missing = some result := by
  obtain ⟨fields', value', rfl, hvalues, hextended⟩ := h.value_of name value hname hvalue
  rw [Source.field, hvalues]
  exact hread value' hextended

end Readers

end Extensions

end StellarPay
