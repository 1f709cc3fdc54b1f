import SpillSort.Proofs.TableRoundTrip

/-! # How sort keys are spelled

A key has at most two texts: an attribute may be named without a direction if its name cannot be taken for anything
else. With a direction every name but the empty one can be written, also a reserved word or one with colons, since
only the last colon divides; column titles are divided at the same place.
-/

namespace SpillSort

namespace SortKey

variable {text name : String} {key : SortKey} {direction : Direction}

/-- The texts of a key. -/
inductive Spells : String → SortKey → Prop
  | natural : Spells "natural" (.identifier .ascending)
  | reverse : Spells "reverse" (.identifier .descending)
  | bare {name : String} : name ≠ "" → ':' ∉ name.toList → name ≠ "natural" → name ≠ "reverse" →
    Spells name (.property name .ascending)
  | ascending {name : String} : name ≠ "" → Spells (name ++ ":asc") (.property name .ascending)
  | descending {name : String} : name ≠ "" → Spells (name ++ ":desc") (.property name .descending)

/-! ## Names -/

theorem named_toList (some_name : name ≠ "") (key : String) (direction : Direction) :
    named key name.toList direction = .ok (.property name direction) := by
  simp [named, some_name]

theorem exists_of_named {key : String} {chars : List Char} {read : SortKey}
    (found : named key chars direction = .ok read) :
    ∃ name, name ≠ "" ∧ chars = name.toList ∧ read = .property name direction := by
  simp only [named] at found
  split at found
  · cases found
  · next nonempty =>
    cases found
    refine ⟨String.ofList chars, ?_, String.toList_ofList.symm, rfl⟩
    simpa using nonempty

/-! ## Reading -/

theorem read_of_notMem (without : ':' ∉ text.toList) :
    read text = if text = "natural" then .ok (.identifier .ascending)
      else if text = "reverse" then .ok (.identifier .descending) else named text text.toList .ascending := by
  rw [read, Text.splitLast?_of_notMem without]

theorem read_ascending (name : String) : read (name ++ ":asc") = named (name ++ ":asc") name.toList .ascending := by
  have chars : (name ++ ":asc").toList = name.toList ++ ':' :: ['a', 's', 'c'] := String.toList_append
  rw [read, chars, Text.splitLast?_append _ (by decide)]
  rfl

theorem read_descending (name : String) :
    read (name ++ ":desc") = named (name ++ ":desc") name.toList .descending := by
  have chars : (name ++ ":desc").toList = name.toList ++ ':' :: ['d', 'e', 's', 'c'] := String.toList_append
  rw [read, chars, Text.splitLast?_append _ (by decide)]
  rfl

theorem Spells.read_eq (spells : Spells text key) : read text = .ok key := by
  cases spells with
  | natural => rw [read_of_notMem (by decide), if_pos rfl]
  | reverse => rw [read_of_notMem (by decide), if_neg (by decide), if_pos rfl]
  | bare some_name without notNatural notReverse =>
    rw [read_of_notMem without, if_neg notNatural, if_neg notReverse, named_toList some_name]
  | ascending some_name => rw [read_ascending, named_toList some_name]
  | descending some_name => rw [read_descending, named_toList some_name]

theorem spells_of_read (found : read text = .ok key) : Spells text key := by
  simp only [read] at found
  split at found
  · next chars cut =>
    obtain ⟨name, some_name, rfl, rfl⟩ := exists_of_named found
    have text_eq : text = name ++ ":asc" := String.toList_inj.mp (by simp [Text.eq_append_of_splitLast? cut])
    exact text_eq ▸ .ascending some_name
  · next chars cut =>
    obtain ⟨name, some_name, rfl, rfl⟩ := exists_of_named found
    have text_eq : text = name ++ ":desc" := String.toList_inj.mp (by simp [Text.eq_append_of_splitLast? cut])
    exact text_eq ▸ .descending some_name
  · cases found
  · next uncut =>
    split at found
    · next reserved =>
      cases found
      exact reserved ▸ .natural
    · next notNatural =>
      split at found
      · next reserved =>
        cases found
        exact reserved ▸ .reverse
      · next notReverse =>
        obtain ⟨name, some_name, same, rfl⟩ := exists_of_named found
        obtain rfl : text = name := String.toList_inj.mp same
        exact .bare some_name (Text.notMem_of_splitLast? uncut) notNatural notReverse

theorem read_eq_ok_iff : read text = .ok key ↔ Spells text key := ⟨spells_of_read, Spells.read_eq⟩

/-- A key is spelled as its own text, unless it is of an attribute without a name. -/
theorem spells_text (some_name : ∀ direction, key ≠ .property "" direction) : Spells key.text key := by
  match key with
  | .identifier .ascending => exact .natural
  | .identifier .descending => exact .reverse
  | .property name .ascending => exact .ascending fun empty => some_name .ascending (congrArg (property · _) empty)
  | .property name .descending => exact .descending fun empty => some_name .descending (congrArg (property · _) empty)

theorem exists_spells_iff : (∃ key, Spells text key) ↔
    (text ≠ "" ∧ ':' ∉ text.toList) ∨ ∃ name, name ≠ "" ∧ (text = name ++ ":asc" ∨ text = name ++ ":desc") := by
  constructor
  · rintro ⟨key, spells⟩
    cases spells with
    | natural => exact .inl (by decide)
    | reverse => exact .inl (by decide)
    | bare some_name without => exact .inl ⟨some_name, without⟩
    | ascending some_name => exact .inr ⟨_, some_name, .inl rfl⟩
    | descending some_name => exact .inr ⟨_, some_name, .inr rfl⟩
  · rintro (⟨some_text, without⟩ | ⟨name, some_name, rfl | rfl⟩)
    · by_cases natural : text = "natural"
      · exact ⟨.identifier .ascending, natural ▸ .natural⟩
      · by_cases reverse : text = "reverse"
        · exact ⟨.identifier .descending, reverse ▸ .reverse⟩
        · exact ⟨_, .bare some_text without natural reverse⟩
    · exact ⟨_, .ascending some_name⟩
    · exact ⟨_, .descending some_name⟩

theorem spells_identifier_iff : Spells text (.identifier direction) ↔
    (text = "natural" ∧ direction = .ascending) ∨ (text = "reverse" ∧ direction = .descending) := by
  constructor
  · intro spells
    cases spells with
    | natural => exact .inl ⟨rfl, rfl⟩
    | reverse => exact .inr ⟨rfl, rfl⟩
  · rintro (⟨rfl, rfl⟩ | ⟨rfl, rfl⟩)
    · exact .natural
    · exact .reverse

end SortKey

/-! ## Column titles -/

/-- A title that is accepted is the one its attribute is written with. -/
theorem Field.title_of_ofTitle {title : String} {field : Field} (declared : ofTitle title = .ok field) :
    field.title = title := by
  simp only [ofTitle] at declared
  split at declared
  · cases declared
  · next name type cut =>
    split at declared
    · next fieldType found =>
      cases declared
      have same : fieldType.name = String.ofList type := by simpa using List.find?_some found
      refine String.toList_inj.mp ?_
      rw [Field.title, same, Text.eq_append_of_splitLast? cut]
      simp
    · cases declared

theorem Schema.titles_of_ofTitles {name : String} {titles : List String} {schema : Schema}
    (declared : ofTitles name titles = .ok schema) : titles = schema.titles := by
  cases titles with
  | nil => cases declared
  | cons first titles =>
    simp only [ofTitles] at declared
    split at declared
    · next same =>
      obtain ⟨fields, fields_eq, rfl⟩ := exists_of_map_eq_ok declared
      rw [same, Schema.titles, map_eq_of_mapM_eq_ok fields_eq fun _ _ => Field.title_of_ofTitle]
    · cases declared

/-- A name that an attribute has is looked up as the first attribute of that name. -/
theorem Schema.exists_index {schema : Schema} {field : Field} (present : field ∈ schema.fields) :
    ∃ index first, schema.index? field.name = some index ∧ schema.fields[index]? = some first ∧
      first.name = field.name := by
  have there : (schema.index? field.name).isSome := by
    rw [index?, List.findIdx?_isSome, List.any_eq_true]
    exact ⟨field, present, by simp⟩
  obtain ⟨index, found⟩ := Option.isSome_iff_exists.mp there
  obtain ⟨bound, same, -⟩ := List.findIdx?_eq_some_iff_getElem.mp found
  exact ⟨index, _, found, List.getElem?_eq_getElem bound, by simpa using same⟩

namespace SortKey

/-- The texts of keys are those without a colon, and the names with a direction behind the last colon, none of them
empty. Only the two reserved words stand for the identifier, and every key is read from its own text, unless it is of an
attribute without a name. So of the columns of a table, whatever their names, each that has a name is found by a key. -/
theorem read_named :
    (∀ text, (∃ key, read text = .ok key) ↔
      (text ≠ "" ∧ ':' ∉ text.toList) ∨ ∃ name, name ≠ "" ∧ (text = name ++ ":asc" ∨ text = name ++ ":desc")) ∧
    (∀ text direction, read text = .ok (.identifier direction) ↔
      (text = "natural" ∧ direction = .ascending) ∨ (text = "reverse" ∧ direction = .descending)) ∧
    (∀ key, (∀ direction, key ≠ .property "" direction) → read key.text = .ok key) ∧
    ∀ table titles schema, Schema.ofTitles table titles = .ok schema →
      titles = identifierColumn :: schema.fields.map (fun field => field.name ++ ":" ++ field.type.name) ∧
      ∀ field ∈ schema.fields, field.name ≠ "" → ∀ direction, ∃ text index first,
        read text = .ok (.property field.name direction) ∧ schema.index? field.name = some index ∧
          schema.fields[index]? = some first ∧ first.name = field.name := by
  refine ⟨fun text => ?_, fun text direction => ?_, fun key some_name => ?_, fun table titles schema declared => ?_⟩
  · simp only [read_eq_ok_iff]
    exact exists_spells_iff
  · rw [read_eq_ok_iff]
    exact spells_identifier_iff
  · exact (spells_text some_name).read_eq
  · refine ⟨Schema.titles_of_ofTitles declared, fun field present some_name direction => ?_⟩
    obtain ⟨index, first, found, at_, same⟩ := Schema.exists_index present
    have spelled : Spells (SortKey.property field.name direction).text (.property field.name direction) :=
      spells_text fun _ unnamed => some_name (SortKey.property.inj unnamed).1
    exact ⟨_, index, first, spelled.read_eq, found, at_, same⟩

/-- Columns that are called like a reserved word, like a key with a direction, and like another column. -/
theorem read_named_reserved :
    ∃ schema, Schema.ofTitles "t" ["id", "natural:integer", "a:asc:string", "natural:float"] = .ok schema ∧
      (∃ text index first, read text = .ok (.property "natural" .ascending) ∧ schema.index? "natural" = some index ∧
        schema.fields[index]? = some first ∧ first.name = "natural") ∧
      ∃ text index first, read text = .ok (.property "a:asc" .descending) ∧ schema.index? "a:asc" = some index ∧
        schema.fields[index]? = some first ∧ first.name = "a:asc" := by
  have declared : Schema.ofTitles "t" ["id", "natural:integer", "a:asc:string", "natural:float"] =
      .ok ⟨"t", [⟨"natural", .integer⟩, ⟨"a:asc", .string⟩, ⟨"natural", .float⟩]⟩ := by decide +kernel
  obtain ⟨-, columns⟩ := read_named.2.2.2 _ _ _ declared
  exact ⟨_, declared, columns ⟨"natural", .float⟩ (by decide) (by decide) .ascending,
    columns ⟨"a:asc", .string⟩ (by decide) (by decide) .descending⟩

end SortKey

end SpillSort
