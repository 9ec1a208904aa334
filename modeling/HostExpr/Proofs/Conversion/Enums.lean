-- SUMMARY: Which values of enumerations come back from an integer, another enumeration or a text.
import HostExpr.Proofs.Conversion.Integers
import HostExpr.Proofs.Floating.Integers
import HostExpr.Proofs.Enumeration

/-!
# Values of enumerations and back

A value of an enumeration becomes an integer exactly. The way into an enumeration, from an integer or from
another enumeration, goes through a double: the value comes back if a double holds it, or if it is the
greatest one.

As a text, a value is the name of its first member, or else its digits. It comes back from that text if
each name has one value, no name has blanks at its ends, and none reads as an integer.
-/

namespace HostExpr

/-! ## Through a double -/

namespace Conversion

/-- The value comes back from the nearest double: the double holds it, or it is the greatest one. -/
def Survives (v : Int64) : Prop := Floating.Holds v.toInt ∨ v = Int64.maxValue

/-- A double becomes the value of an enumeration that its integer part is, within the bounds. -/
theorem enumOfDouble_eq_iff {type : EnumType} {x : Float} {v : Int64} :
    enumOfDouble type x = ⟨type, v⟩ ↔
      Floating.truncate Int64.minValue.toInt Int64.maxValue.toInt x = v.toInt := by
  have hbounds : Int64.minValue.toInt ≤ Int64.maxValue.toInt := by decide
  obtain ⟨hleast, hgreatest⟩ := Floating.clamp_mem hbounds
    ((Floating.content x).toInt Int64.minValue.toInt Int64.maxValue.toInt)
  have hword : (Int64.ofInt (Floating.truncate Int64.minValue.toInt Int64.maxValue.toInt x)).toInt =
      Floating.truncate Int64.minValue.toInt Int64.maxValue.toInt x :=
    Int64.toInt_ofInt_of_le hleast (Int.lt_of_le_of_lt hgreatest (by decide))
  unfold enumOfDouble
  rw [EnumValue.mk.injEq, ← Int64.toInt_inj, hword]
  exact and_iff_right rfl

/-- An integer becomes the value of an enumeration that it is, if that survives. -/
theorem enumOfDouble_ofInt_eq_iff {type : EnumType} {v : Int64} :
    enumOfDouble type (Floating.ofInt v.toInt) = ⟨type, v⟩ ↔ Survives v := by
  rw [enumOfDouble_eq_iff, Floating.truncate_ofInt_eq_iff v.minValue_le_toInt v.toInt_le, Int64.toInt_inj]
  exact Iff.rfl

end Conversion

/-- A value of an enumeration becomes the `long` of its integer. -/
theorem convert_enum_long (type : EnumType) (v : Int64) :
    convert (.enum ⟨type, v⟩) (.number (.integer .long)) = .ok (.number (.ofInt .long v.toInt)) := by
  have hlong : IntegerKind.long.toInt (.ofInt 64 v.toInt) = v.toInt :=
    IntegerKind.toInt_ofInt (k := .long) v.minValue_le_toInt v.toInt_le
  show Except.ok (Value.number (.ofInt .long (IntegerKind.long.toInt (.ofInt 64 v.toInt)))) = _
  rw [hlong]

/-- A `long` becomes a value of an enumeration through a double. -/
theorem convert_long_enum (type : EnumType) (v : Int64) :
    convert (.number (.ofInt .long v.toInt)) (.enum type) =
      .ok (.enum (Conversion.enumOfDouble type (Floating.ofInt v.toInt))) := by
  have hlong : IntegerKind.long.toInt (.ofInt 64 v.toInt) = v.toInt :=
    IntegerKind.toInt_ofInt (k := .long) v.minValue_le_toInt v.toInt_le
  show Except.ok (Value.enum (Conversion.enumOfDouble type
    (Floating.ofInt (IntegerKind.long.toInt (.ofInt 64 v.toInt))))) = _
  rw [hlong]

/-- A value of an enumeration becomes one of another enumeration through a double. -/
theorem convert_enum_enum {type other : EnumType} (h : type ≠ other) (v : Int64) :
    convert (.enum ⟨type, v⟩) (.enum other) =
      .ok (.enum (Conversion.enumOfDouble other (Floating.ofInt v.toInt))) :=
  if_neg h

/-- A value of an enumeration comes back from the `long` that it becomes, and it is kept by another
enumeration, exactly if it survives a double. Its own enumeration keeps it as it is. -/
theorem convert_enum_keeps_iff (type other : EnumType) (v : Int64) :
    ((convert (.enum ⟨type, v⟩) (.number (.integer .long)) >>= fun n => convert n (.enum type)) =
      .ok (.enum ⟨type, v⟩) ↔ Conversion.Survives v) ∧
    (convert (.enum ⟨type, v⟩) (.enum other) = .ok (.enum ⟨other, v⟩) ↔
      type = other ∨ Conversion.Survives v) := by
  constructor
  · rw [convert_enum_long]
    show convert (.number (.ofInt .long v.toInt)) (.enum type) = _ ↔ _
    rw [convert_long_enum, Except.ok.injEq, Value.enum.injEq]
    exact Conversion.enumOfDouble_ofInt_eq_iff
  · by_cases h : type = other
    · subst h
      exact iff_of_true (if_pos rfl) (.inl rfl)
    · rw [convert_enum_enum h, Except.ok.injEq, Value.enum.injEq, or_iff_right h]
      exact Conversion.enumOfDouble_ofInt_eq_iff

/-- The least positive integer that no double holds becomes its even neighbour, on the way back from a `long`
and in another enumeration. -/
theorem not_convert_enum_keeps :
    (convert (.enum ⟨⟨"Flags", []⟩, 9007199254740993⟩) (.number (.integer .long)) >>= fun n =>
        convert n (.enum ⟨"Flags", []⟩)) = .ok (.enum ⟨⟨"Flags", []⟩, 9007199254740992⟩) ∧
      convert (.enum ⟨⟨"Flags", []⟩, 9007199254740993⟩) (.enum ⟨"Options", []⟩) =
        .ok (.enum ⟨⟨"Options", []⟩, 9007199254740992⟩) ∧
      (9007199254740992 : Int64) ≠ 9007199254740993 := by
  have hword : ∀ type, Conversion.enumOfDouble type (Floating.ofInt (9007199254740993 : Int64).toInt) =
      ⟨type, 9007199254740992⟩ := by
    intro type
    have htruncate : Int64.ofInt (Floating.truncate Int64.minValue.toInt Int64.maxValue.toInt
        (Floating.ofInt (9007199254740993 : Int64).toInt)) = 9007199254740992 := by decide +kernel
    exact congrArg (EnumValue.mk type) htruncate
  refine ⟨?_, ?_, by decide⟩
  · rw [convert_enum_long]
    show convert (.number (.ofInt .long (9007199254740993 : Int64).toInt)) (.enum ⟨"Flags", []⟩) = _
    rw [convert_long_enum, hword]
  · rw [convert_enum_enum (by decide), hword]

/-! ## Through a text -/

/-- A text without blanks at its ends stays as it is. -/
theorem Text.trim_eq_self {s : String} (hfirst : ∀ c ∈ s.toList.head?, isBlank c = false)
    (hlast : ∀ c ∈ s.toList.getLast?, isBlank c = false) : trim s = s := by
  have hnone : ∀ cs : List Char, (∀ c ∈ cs.head?, isBlank c = false) → cs.dropWhile isBlank = cs :=
    fun cs => dropWhile_isBlank (List.forall_mem_nil _)
  rw [List.getLast?_eq_head?_reverse] at hlast
  unfold trim trimChars
  rw [hnone _ hfirst, hnone _ hlast, List.reverse_reverse, String.ofList_toList]

/-- The decimal of an integer has no blanks at its ends. -/
theorem Conversion.trim_ofInt (n : Int) : Text.trim (Decimal.ofInt n) = Decimal.ofInt n := by
  have hchars : ∀ c ∈ (Decimal.ofInt n).toList, Text.isBlank c = false := by
    intro c hc
    rw [Decimal.ofInt, String.toList_ofList] at hc
    exact isBlank_integerChars hc
  exact Text.trim_eq_self (fun c hc => hchars c (List.mem_of_mem_head? hc))
    fun c hc => hchars c (List.mem_of_getLast? hc)

/-- The names of an enumeration are not taken for anything else when they are read: no two members share a
name, no name has blanks at its ends, and none reads as an integer of 64 bits. -/
structure EnumType.HasPlainNames (type : EnumType) : Prop where
  distinct : (type.members.map (·.1)).Nodup
  firstNotBlank : ∀ member ∈ type.members, ∀ c ∈ member.1.toList.head?, Text.isBlank c = false
  lastNotBlank : ∀ member ∈ type.members, ∀ c ∈ member.1.toList.getLast?, Text.isBlank c = false
  notInteger : ∀ member ∈ type.members, Decimal.int64? member.1.toList = none

namespace Conversion

variable {type : EnumType} {v : Int64}

/-- A value with a name is read from the name of its first member. -/
theorem enumValue_of_nameOf? (h : type.HasPlainNames) {name : String}
    (hname : type.nameOf? v = some name) : enumValue name type = .ok ⟨type, v⟩ := by
  have hmem := EnumType.mem_of_nameOf? hname
  have htrim : Text.trim name = name :=
    Text.trim_eq_self (h.firstNotBlank _ hmem) (h.lastNotBlank _ hmem)
  unfold enumValue
  dsimp only
  rw [htrim, EnumType.valueOf?_of_nameOf? h.distinct hname]
  rfl

/-- The digits of a value are read as that value: no member goes by them. -/
theorem enumValue_ofInt (h : type.HasPlainNames) :
    enumValue (Decimal.ofInt v.toInt) type = .ok ⟨type, v⟩ := by
  have hinteger : Decimal.int64? (Decimal.ofInt v.toInt).toList = some v := by
    rw [Decimal.ofInt, String.toList_ofList, Decimal.int64?_integerChars,
      if_pos ⟨v.minValue_le_toInt, v.toInt_le⟩, Int64.ofInt_toInt]
  have hnone : type.valueOf? (Decimal.ofInt v.toInt) = none := by
    rw [Option.eq_none_iff_forall_ne_some]
    intro value hvalue
    have hnot := h.notInteger _ (EnumType.mem_of_valueOf? hvalue)
    rw [hinteger] at hnot
    cases hnot
  unfold enumValue
  dsimp only
  rw [trim_ofInt, hnone, hinteger]
  rfl

end Conversion

/-- A value of an enumeration comes back from its text. -/
theorem convert_enum_text {type : EnumType} (h : type.HasPlainNames) (v : Int64) :
    (convert (.enum ⟨type, v⟩) .string >>= fun text => convert text (.enum type)) =
      .ok (.enum ⟨type, v⟩) := by
  have hread : Conversion.enumValue (Conversion.enumText ⟨type, v⟩) type = .ok ⟨type, v⟩ := by
    unfold Conversion.enumText EnumValue.name?
    cases hname : type.nameOf? v with
    | some name => exact Conversion.enumValue_of_nameOf? h hname
    | none => exact Conversion.enumValue_ofInt h
  show Value.enum <$> Conversion.enumValue (Conversion.enumText ⟨type, v⟩) type = _
  rw [hread]
  rfl

/-- An enumeration with two names for one value, and values without a name. -/
def EnumType.color : EnumType := ⟨"Color", [("Red", 0), ("Crimson", 0), ("Green", 7)]⟩

theorem EnumType.hasPlainNames_color : color.HasPlainNames := by
  have hfirst : color.members.all fun member => member.1.toList.head?.all fun c => !Text.isBlank c := by
    decide +kernel
  have hlast : color.members.all fun member => member.1.toList.getLast?.all fun c => !Text.isBlank c := by
    decide +kernel
  have hinteger : color.members.all fun member => (Decimal.int64? member.1.toList).isNone := by
    decide +kernel
  refine ⟨by decide, fun member hmem c hc => ?_, fun member hmem c hc => ?_, fun member hmem => ?_⟩
  · have hmember := List.all_eq_true.1 hfirst member hmem
    rwa [Option.mem_def.1 hc, Option.all_some, Bool.not_eq_true'] at hmember
  · have hmember := List.all_eq_true.1 hlast member hmem
    rwa [Option.mem_def.1 hc, Option.all_some, Bool.not_eq_true'] at hmember
  · exact Option.isNone_iff_eq_none.1 (List.all_eq_true.1 hinteger member hmem)

/-- A value that two members share comes back from its text, and so does one without a member. -/
theorem convert_enum_text_color :
    EnumType.color.HasPlainNames ∧
      (convert (.enum ⟨.color, 0⟩) .string >>= fun text => convert text (.enum .color)) =
        .ok (.enum ⟨.color, 0⟩) ∧
      (convert (.enum ⟨.color, -3⟩) .string >>= fun text => convert text (.enum .color)) =
        .ok (.enum ⟨.color, -3⟩) :=
  ⟨EnumType.hasPlainNames_color, convert_enum_text EnumType.hasPlainNames_color 0,
    convert_enum_text EnumType.hasPlainNames_color (-3)⟩

end HostExpr
