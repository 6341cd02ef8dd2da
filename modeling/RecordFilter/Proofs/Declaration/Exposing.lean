import RecordFilter.Proofs.Declaration.Readings
import RecordFilter.Proofs.Declaration.TypePaths

/-!
Which declarations expose anything, and what. The members with the attribute are exposed in their
order, each under the name that its options give it, and a record answers with nothing else.
-/

namespace RecordFilter

namespace MemberType

/-- The plain types and their names. -/
def plainTypes : List (String × MemberType) :=
  [("String", string), ("i8", i8), ("i16", i16), ("i32", i32), ("u8", u8), ("u16", u16),
    ("i64", i64), ("u32", u32), ("f32", f32), ("f64", f64), ("bool", bool)]

theorem named?_eq_some_iff {name : String} {t : MemberType} :
    named? name = some t ↔ (name, t) ∈ plainTypes := by
  constructor
  · intro h
    unfold named? at h
    split at h <;> cases h <;> simp [plainTypes]
  · intro h
    simp only [plainTypes, List.mem_cons, Prod.mk.injEq, List.not_mem_nil, or_false] at h
    rcases h with ⟨rfl, rfl⟩ | ⟨rfl, rfl⟩ | ⟨rfl, rfl⟩ | ⟨rfl, rfl⟩ | ⟨rfl, rfl⟩ | ⟨rfl, rfl⟩ |
      ⟨rfl, rfl⟩ | ⟨rfl, rfl⟩ | ⟨rfl, rfl⟩ | ⟨rfl, rfl⟩ | ⟨rfl, rfl⟩ <;> rfl

end MemberType

/-- What the members of one value of a declared type hold, by their names and types. -/
abbrev MemberValues : Type :=
  (member : String) → (t : MemberType) → t.Value

/-- The value that is read for an exposed member. -/
def Exposed.reading (values : MemberValues) (e : Exposed) : Exposed.Reading :=
  ⟨e, values e.member e.type⟩

namespace Declaration

/-- A path to a plain type, or to an option of a type that is supported in its turn. -/
inductive Supports : TypeExpr → MemberType → Prop where
  | plain {name : String} {t : MemberType} (h : (name, t) ∈ MemberType.plainTypes) :
      Supports (.path name) t
  | applied {name : String} {first : TypeExpr} {t : MemberType}
      (h : (name, t) ∈ MemberType.plainTypes) : Supports (.applied name first) t
  | option {first : TypeExpr} {t : MemberType} (h : Supports first t) :
      Supports (.applied "Option" first) (.option t)

theorem memberType?_eq_some_iff {e : TypeExpr} {t : MemberType} :
    e.memberType? = some t ↔ Supports e t := by
  constructor
  · intro h
    induction e generalizing t with
    | path name => exact .plain (MemberType.named?_eq_some_iff.mp h)
    | applied name first ih =>
        rw [TypeExpr.memberType?] at h
        split at h
        · next hname =>
            obtain ⟨inner, hinner, rfl⟩ := Option.map_eq_some_iff.mp h
            rw [hname]
            exact .option (ih hinner)
        · exact .applied (MemberType.named?_eq_some_iff.mp h)
    | other => cases h
  · intro h
    induction h with
    | plain h => exact MemberType.named?_eq_some_iff.mpr h
    | @applied name first t h =>
        have hname : name ≠ "Option" := by
          rintro rfl
          simp [MemberType.plainTypes] at h
        rw [TypeExpr.memberType?, if_neg hname]
        exact MemberType.named?_eq_some_iff.mpr h
    | option h ih => rw [TypeExpr.memberType?, if_pos rfl, ih, Option.map_some]

/-- One of the two options that there are, with a text. -/
structure AttributeOption.Proper (o : AttributeOption) : Prop where
  key : o.key = "rename" ∨ o.key = "name"
  value : ∃ s, o.value = .text s

/-- The options of the attribute are in order. Other attributes, and other forms of this one, give
none. -/
def Attribute.Admissible (a : Attribute) : Prop :=
  a.path = "filterable" → ∀ options, a.form = .options options → ∀ o ∈ options, o.Proper

/-- The options of a key, over all attributes in their order. -/
def givenFor (key : String) (attributes : List Attribute) : List AttributeOption :=
  (attributes.flatMap Attribute.givenOptions).filter (·.key == key)

/-- The name is the one written, or what is left of it without the mark `r#`. -/
def Unmarks (written name : String) : Prop :=
  written = "r#" ++ name ∨ (written = name ∧ ∀ rest, written ≠ "r#" ++ rest)

/-- The name under which something is known that is declared under another: the last option of the
key decides, or else the name in the declaration. -/
inductive Named (key : String) (attributes : List Attribute) (written : String) :
    String → Prop where
  | given {s : String} (h : (givenFor key attributes).getLast? = some ⟨key, .text s⟩) :
      Named key attributes written s
  | own {name : String} (h : givenFor key attributes = []) (hname : Unmarks written name) :
      Named key attributes written name

/-- The exposure of one member, which reads that very member. -/
structure Exposes (m : Member) (e : Exposed) : Prop where
  name : Named "rename" m.attributes m.name e.name
  type : Supports (TypeExpr.ofText m.type) e.type
  member : e.member = m.name

section

variable {o : AttributeOption} {os : List AttributeOption} {a : Attribute}
  {attributes : List Attribute} {key s name written : String} {r : Option String}

theorem bind_eq_ok_iff {α β : Type} {x : Except DeclarationError α}
    {f : α → Except DeclarationError β} {b : β} :
    x >>= f = .ok b ↔ ∃ a, x = .ok a ∧ f a = .ok b := by
  cases x <;> simp [bind, Except.bind]

theorem check_eq_ok_iff : o.check = .ok s ↔ o.Proper ∧ o.value = .text s := by
  rw [AttributeOption.check]
  constructor
  · intro h
    split at h
    · next hkey =>
        split at h
        · cases h
        · cases h
        · next hvalue =>
            cases h
            exact ⟨⟨hkey, _, hvalue⟩, hvalue⟩
    · cases h
  · rintro ⟨⟨hkey, -⟩, hvalue⟩
    rw [if_pos hkey, hvalue]

theorem proper_of_lastOption (h : lastOption key os = .ok r) : ∀ o ∈ os, o.Proper := by
  induction os generalizing r with
  | nil => simp
  | cons o os ih =>
      rw [lastOption, bind_eq_ok_iff] at h
      obtain ⟨s, hs, h⟩ := h
      obtain ⟨later, hlater, -⟩ := bind_eq_ok_iff.mp h
      exact List.forall_mem_cons.mpr ⟨(check_eq_ok_iff.mp hs).1, ih hlater⟩

theorem getLast?_filter_cons (p : AttributeOption → Bool) : ((o :: os).filter p).getLast? =
    ((os.filter p).getLast?).or (if p o then some o else none) := by
  rw [List.filter_cons]
  split
  · rw [List.getLast?_cons]
    cases (os.filter p).getLast? <;> rfl
  · rw [Option.or_none]

/-- Of options that are all in order, the last one of the key is found. -/
theorem exists_lastOption (key : String) (h : ∀ o ∈ os, o.Proper) : ∃ r, lastOption key os = .ok r ∧
    (os.filter (·.key == key)).getLast? = r.map fun s => ⟨key, .text s⟩ := by
  induction os with
  | nil => exact ⟨none, rfl, rfl⟩
  | cons o os ih =>
      rw [List.forall_mem_cons] at h
      obtain ⟨s, hs⟩ := h.1.value
      obtain ⟨later, hlater, hlast⟩ := ih h.2
      refine ⟨later.or (if o.key = key then some s else none), ?_, ?_⟩
      · rw [lastOption, check_eq_ok_iff.mpr ⟨h.1, hs⟩, hlater]
        rfl
      · obtain ⟨k, value⟩ := o
        cases hs
        rw [getLast?_filter_cons, hlast]
        by_cases hkey : k = key
        · cases later <;> simp [hkey]
        · cases later <;> simp [hkey]

theorem lastOption_eq_ok_iff : lastOption key os = .ok r ↔ (∀ o ∈ os, o.Proper) ∧
    (os.filter (·.key == key)).getLast? = r.map fun s => ⟨key, .text s⟩ := by
  constructor
  · intro h
    have hproper := proper_of_lastOption h
    obtain ⟨r', hr', hlast⟩ := exists_lastOption key hproper
    cases hr'.symm.trans h
    exact ⟨hproper, hlast⟩
  · rintro ⟨hproper, hlast⟩
    obtain ⟨r', hr', hlast'⟩ := exists_lastOption key hproper
    have hinj : Function.Injective fun s => (⟨key, .text s⟩ : AttributeOption) := by
      rintro s s' h
      cases h
      rfl
    rw [hr', Option.map_injective hinj (hlast'.symm.trans hlast)]

theorem forall_proper_iff :
    (∀ o ∈ attributes.flatMap Attribute.givenOptions, o.Proper) ↔
      ∀ a ∈ attributes, a.Admissible := by
  have hone : ∀ a : Attribute, (∀ o ∈ a.givenOptions, o.Proper) ↔ a.Admissible := by
    rintro ⟨path, form⟩
    cases form with
    | options options =>
        by_cases hpath : path = "filterable" <;>
          simp [Attribute.givenOptions, Attribute.Admissible, Attribute.marksExposure, hpath]
    | _ => simp [Attribute.givenOptions, Attribute.Admissible]
  simp only [← hone, List.mem_flatMap]
  constructor
  · intro h a ha o ho
    exact h o ⟨a, ha, ho⟩
  · rintro h o ⟨a, ha, ho⟩
    exact h a ha o ho

theorem optionOf_eq_ok_iff : optionOf key attributes = .ok r ↔ (∀ a ∈ attributes, a.Admissible) ∧
    (givenFor key attributes).getLast? = r.map fun s => ⟨key, .text s⟩ := by
  rw [optionOf, lastOption_eq_ok_iff, forall_proper_iff, givenFor]

theorem plainName_marked (rest : String) : plainName ("r#" ++ rest) = rest := by
  have htext : ("r#" ++ rest).toList = 'r' :: '#' :: rest.toList := by simp
  rw [plainName, htext]
  exact String.ofList_toList

theorem plainName_of_unmarked (h : ∀ rest, written ≠ "r#" ++ rest) :
    plainName written = written := by
  rw [plainName]
  split
  · next rest htext =>
      refine absurd ?_ (h (String.ofList rest))
      rw [← String.toList_inj, htext]
      simp
  · rfl

theorem plainName_eq_iff : plainName written = name ↔ Unmarks written name := by
  constructor
  · rintro rfl
    by_cases hmarked : ∃ rest, written = "r#" ++ rest
    · obtain ⟨rest, rfl⟩ := hmarked
      rw [plainName_marked]
      exact .inl rfl
    · rw [not_exists] at hmarked
      exact .inr ⟨(plainName_of_unmarked hmarked).symm, hmarked⟩
  · rintro (rfl | ⟨rfl, hmarked⟩)
    · exact plainName_marked name
    · exact plainName_of_unmarked hmarked

theorem named_iff (h : (givenFor key attributes).getLast? = r.map fun s => ⟨key, .text s⟩) :
    Named key attributes written name ↔ r.getD (plainName written) = name := by
  cases r with
  | none =>
      have hnil : givenFor key attributes = [] := List.getLast?_eq_none_iff.mp h
      rw [Option.getD_none, plainName_eq_iff]
      constructor
      · rintro (hgiven | ⟨-, hname⟩)
        · cases hgiven.symm.trans h
        · exact hname
      · exact .own hnil
  | some s =>
      rw [Option.getD_some]
      constructor
      · rintro (hgiven | ⟨hnil, -⟩)
        · cases hgiven.symm.trans h
          rfl
        · rw [hnil] at h
          cases h
      · rintro rfl
        exact .given h

theorem Named.unique {name' : String} (h : Named key attributes written name)
    (h' : Named key attributes written name') : name = name' := by
  rcases h with hgiven | ⟨hnil, hname⟩
  · exact (named_iff (r := some name) hgiven).mp h'
  · have hnone : (givenFor key attributes).getLast? = none := by rw [hnil]; rfl
    exact (plainName_eq_iff.mpr hname).symm.trans ((named_iff (r := none) hnone).mp h')

theorem Supports.unique {e : TypeExpr} {t t' : MemberType} (h : Supports e t)
    (h' : Supports e t') : t = t' :=
  Option.some.inj ((memberType?_eq_some_iff.mpr h).symm.trans (memberType?_eq_some_iff.mpr h'))

theorem exists_optionOf (key : String) (h : ∀ a ∈ attributes, a.Admissible) :
    ∃ r, optionOf key attributes = .ok r := by
  obtain ⟨r, hr, -⟩ := exists_lastOption key (forall_proper_iff.mpr h)
  exact ⟨r, hr⟩

theorem exists_named (key written : String) (h : ∀ a ∈ attributes, a.Admissible) :
    ∃ name, Named key attributes written name := by
  obtain ⟨r, hr⟩ := exists_optionOf key h
  exact ⟨r.getD (plainName written), (named_iff (optionOf_eq_ok_iff.mp hr).2).mpr rfl⟩

end

section

variable {m : Member} {ms : List Member} {e : Exposed} {es : List Exposed} {d : Declaration}
  {x : Exposure}

theorem Member.expose_eq_ok_iff :
    m.expose = .ok e ↔ (∀ a ∈ m.attributes, a.Admissible) ∧ Exposes m e := by
  rw [Member.expose, bind_eq_ok_iff]
  constructor
  · rintro ⟨r, hr, h⟩
    obtain ⟨hadmissible, hgiven⟩ := optionOf_eq_ok_iff.mp hr
    split at h
    · next t htype =>
        cases h
        exact ⟨hadmissible, (named_iff hgiven).mpr rfl, memberType?_eq_some_iff.mp htype, rfl⟩
    · cases h
  · rintro ⟨hadmissible, hname, htype, hmember⟩
    obtain ⟨r, hr⟩ := exists_optionOf "rename" hadmissible
    refine ⟨r, hr, ?_⟩
    rw [memberType?_eq_some_iff.mpr htype, (named_iff (optionOf_eq_ok_iff.mp hr).2).mp hname,
      ← hmember]
    rfl

theorem mapM_expose_eq_ok_iff :
    ms.mapM Member.expose = .ok es ↔ List.Forall₂ (fun m e => m.expose = .ok e) ms es := by
  induction ms generalizing es with
  | nil => simp [pure, Except.pure, eq_comm]
  | cons m ms ih =>
      simp only [List.mapM_cons, bind_eq_ok_iff, ih, List.forall₂_cons_left_iff]
      constructor
      · rintro ⟨e, he, es, hes, h⟩
        cases h
        exact ⟨e, es, he, hes, rfl⟩
      · rintro ⟨e, es, he, hes, rfl⟩
        exact ⟨e, he, es, hes, rfl⟩

/-- A member without the attribute for exposure has no options for it. -/
theorem Member.admissible_of_not_exposed (h : m.isExposed = false) :
    ∀ a ∈ m.attributes, a.Admissible := by
  intro a ha hpath
  have hmark : a.marksExposure = true := by simp [Attribute.marksExposure, hpath]
  rw [Member.isExposed, List.any_eq_false] at h
  exact absurd hmark (h a ha)

theorem forall₂_expose_iff : List.Forall₂ (fun m e => m.expose = .ok e) ms es ↔
    (∀ m ∈ ms, ∀ a ∈ m.attributes, a.Admissible) ∧ List.Forall₂ Exposes ms es := by
  simp only [Member.expose_eq_ok_iff]
  exact List.forall₂_and_left ms es

theorem forall_admissible_iff :
    (∀ m ∈ ms.filter Member.isExposed, ∀ a ∈ m.attributes, a.Admissible) ↔
      ∀ m ∈ ms, ∀ a ∈ m.attributes, a.Admissible := by
  constructor
  · intro h m hm
    cases hexposed : m.isExposed with
    | true => exact h m (List.mem_filter.mpr ⟨hm, hexposed⟩)
    | false => exact Member.admissible_of_not_exposed hexposed
  · intro h m hm
    exact h m (List.mem_of_mem_filter hm)

theorem expose_eq_ok_iff : d.expose = .ok x ↔
    d.shape = .named ∧ (∀ a ∈ d.attributes, a.Admissible) ∧
    (∀ m ∈ d.members, ∀ a ∈ m.attributes, a.Admissible) ∧
    Named "name" d.attributes d.name x.recordType ∧
    List.Forall₂ Exposes (d.members.filter Member.isExposed) x.fields := by
  rw [expose, bind_eq_ok_iff]
  constructor
  · rintro ⟨r, hr, h⟩
    obtain ⟨hadmissible, hgiven⟩ := optionOf_eq_ok_iff.mp hr
    split at h
    · next hshape =>
        obtain ⟨fields, hfields, hx⟩ := bind_eq_ok_iff.mp h
        cases hx
        obtain ⟨hmembers, hexposes⟩ := forall₂_expose_iff.mp (mapM_expose_eq_ok_iff.mp hfields)
        exact ⟨hshape, hadmissible, forall_admissible_iff.mp hmembers, (named_iff hgiven).mpr rfl,
          hexposes⟩
    all_goals cases h
  · rintro ⟨hshape, hadmissible, hmembers, hname, hexposes⟩
    obtain ⟨r, hr⟩ := exists_optionOf "name" hadmissible
    have hfields : (d.members.filter Member.isExposed).mapM Member.expose = .ok x.fields :=
      mapM_expose_eq_ok_iff.mpr
        (forall₂_expose_iff.mpr ⟨forall_admissible_iff.mpr hmembers, hexposes⟩)
    refine ⟨r, hr, ?_⟩
    rw [hshape]
    change (do let fields ← (d.members.filter Member.isExposed).mapM Member.expose
               return (⟨r.getD (plainName d.name), fields⟩ : Exposure)) = .ok x
    rw [hfields, (named_iff (optionOf_eq_ok_iff.mp hr).2).mp hname]
    rfl

theorem exists_exposes (hadmissible : ∀ m ∈ ms, ∀ a ∈ m.attributes, a.Admissible)
    (htypes : ∀ m ∈ ms, ∃ t, Supports (TypeExpr.ofText m.type) t) :
    ∃ es, List.Forall₂ Exposes ms es := by
  induction ms with
  | nil => exact ⟨[], .nil⟩
  | cons m ms ih =>
      rw [List.forall_mem_cons] at hadmissible htypes
      obtain ⟨es, hes⟩ := ih hadmissible.2 htypes.2
      obtain ⟨name, hname⟩ := exists_named "rename" m.name hadmissible.1
      obtain ⟨t, ht⟩ := htypes.1
      exact ⟨⟨name, t, m.name⟩ :: es, .cons ⟨hname, ht, rfl⟩ hes⟩

theorem supports_of_exposes (h : List.Forall₂ Exposes ms es) :
    ∀ m ∈ ms, ∃ t, Supports (TypeExpr.ofText m.type) t := by
  induction h with
  | nil => simp
  | cons he _ ih => exact List.forall_mem_cons.mpr ⟨⟨_, he.type⟩, ih⟩

theorem exists_expose_iff : (∃ x, d.expose = .ok x) ↔
    d.shape = .named ∧ (∀ a ∈ d.attributes, a.Admissible) ∧
    (∀ m ∈ d.members, ∀ a ∈ m.attributes, a.Admissible) ∧
    ∀ m ∈ d.members, m.isExposed = true → ∃ t, Supports (TypeExpr.ofText m.type) t := by
  constructor
  · rintro ⟨x, hx⟩
    obtain ⟨hshape, hadmissible, hmembers, -, hexposes⟩ := expose_eq_ok_iff.mp hx
    refine ⟨hshape, hadmissible, hmembers, ?_⟩
    intro m hm hexposed
    exact supports_of_exposes hexposes m (List.mem_filter.mpr ⟨hm, hexposed⟩)
  · rintro ⟨hshape, hadmissible, hmembers, htypes⟩
    obtain ⟨name, hname⟩ := exists_named "name" d.name hadmissible
    obtain ⟨es, hes⟩ := exists_exposes (forall_admissible_iff.mpr hmembers) <| by
      intro m hm
      obtain ⟨hmem, hexposed⟩ := List.mem_filter.mp hm
      exact htypes m hmem hexposed
    exact ⟨⟨name, es⟩, expose_eq_ok_iff.mpr ⟨hshape, hadmissible, hmembers, hname, hes⟩⟩

end

/-- What a record with these members answers for a name: the first member of the name gives its
value, which it has under its own name and its own type. -/
inductive Answers (values : MemberValues) (name : String) : List Member → Scalar → Prop where
  | first {m : Member} {rest : List Member} {t : MemberType}
      (hname : Named "rename" m.attributes m.name name) (ht : Supports (TypeExpr.ofText m.type) t) :
      Answers values name (m :: rest) (t.toScalar (values m.name t))
  | later {m : Member} {rest : List Member} {v : Scalar}
      (hname : ¬Named "rename" m.attributes m.name name) (h : Answers values name rest v) :
      Answers values name (m :: rest) v

/-- The catalog has a member under its name with the kind of its type. -/
def Lists (m : Member) (f : Field) : Prop :=
  Named "rename" m.attributes m.name f.name ∧
    ∃ t, Supports (TypeExpr.ofText m.type) t ∧ f.kind = t.kind

section

variable {ms : List Member} {es : List Exposed} {values : MemberValues} {name : String} {v : Scalar}

theorem field?_ofReadings_cons (r : Exposed.Reading) (rs : List Exposed.Reading) :
    (Record.ofReadings (r :: rs)).field? name =
      if r.exposed.name = name then some (r.exposed.type.toScalar r.value)
      else (Record.ofReadings rs).field? name := by
  change ((r :: rs).find? (·.exposed.name == name)).map _ = _
  split
  · next hname =>
      rw [List.find?_cons_of_pos (by simpa using hname)]
      rfl
  · next hname =>
      rw [List.find?_cons_of_neg (by simpa using hname)]
      rfl

theorem field?_ofReadings_iff (h : List.Forall₂ Exposes ms es) :
    (Record.ofReadings (es.map (Exposed.reading values))).field? name = some v ↔
      Answers values name ms v := by
  induction h with
  | nil => exact iff_of_false nofun nofun
  | @cons m e ms es he _ ih =>
      rw [List.map_cons, field?_ofReadings_cons]
      split
      · next hname =>
          have hnamed : Named "rename" m.attributes m.name name := hname ▸ he.name
          change some (e.type.toScalar (values e.member e.type)) = some v ↔ _
          rw [he.member, Option.some.injEq]
          constructor
          · rintro rfl
            exact .first hnamed he.type
          · rintro (⟨-, ht⟩ | ⟨hother, -⟩)
            · rw [ht.unique he.type]
            · exact absurd hnamed hother
      · next hname =>
          have hother : ¬Named "rename" m.attributes m.name name := by
            intro hnamed
            exact hname (he.name.unique hnamed)
          rw [ih]
          constructor
          · exact .later hother
          · rintro (⟨hnamed, -⟩ | ⟨-, hlater⟩)
            · exact absurd hnamed hother
            · exact hlater

theorem forall₂_lists (h : List.Forall₂ Exposes ms es) :
    List.Forall₂ Lists ms (es.map fun e => ⟨e.name, e.type.kind⟩) := by
  rw [List.forall₂_map_right_iff]
  exact h.imp fun m e he => ⟨he.name, e.type, he.type, rfl⟩

end

/-- A declaration exposes something exactly where it is a struct with named members, every option
for exposure is one that there is and has a text, and every marked member has a supported type; a
written path is such by its last name and the argument of it. It then has the name that its last
option gives or its own, its catalog has the marked members in their order and no others, and its
records answer with these members alone. -/
theorem expose_outcome (d : Declaration) :
    ((∃ x, d.expose = .ok x) ↔
      d.shape = .named ∧ (∀ a ∈ d.attributes, a.Admissible) ∧
      (∀ m ∈ d.members, ∀ a ∈ m.attributes, a.Admissible) ∧
      ∀ m ∈ d.members, m.isExposed = true → ∃ t, Supports (TypeExpr.ofText m.type) t) ∧
    (∀ m ∈ d.members, ∀ p : PathText, m.type = String.ofList p.chars →
      TypeExpr.ofText m.type = p.expr) ∧
    ∀ x, d.expose = .ok x →
      Named "name" d.attributes d.name x.recordType ∧
      List.Forall₂ Exposes (d.members.filter Member.isExposed) x.fields ∧
      List.Forall₂ Lists (d.members.filter Member.isExposed) x.schema.fields ∧
      ∀ values name v,
        (Record.ofReadings (x.fields.map (Exposed.reading values))).field? name = some v ↔
          Answers values name (d.members.filter Member.isExposed) v := by
  refine ⟨exists_expose_iff, ?_, ?_⟩
  · intro m _ p hp
    rw [hp, p.ofText_chars]
  · intro x hx
    obtain ⟨-, -, -, hname, hexposes⟩ := expose_eq_ok_iff.mp hx
    exact ⟨hname, hexposes, forall₂_lists hexposes, fun _ _ _ => field?_ofReadings_iff hexposes⟩

theorem expose_outcome_nested :
    let options (os : List (String × String)) : Attribute :=
      ⟨"filterable", .options (os.map fun o => ⟨o.1, .text o.2⟩)⟩
    let bare : Attribute := ⟨"filterable", .bare⟩
    let d : Declaration := ⟨.named, "r#Event", [bare, options [("name", "a"), ("rename", "b")]],
      [⟨"user_id", "std::string::String", [options [("rename", "u"), ("name", "v")],
          options [("rename", "userId")]]⟩,
        ⟨"secret", "Vec<u8>", [⟨"serde", .options [⟨"skip", .missing⟩]⟩]⟩,
        ⟨"r#type", "Option<option::Option<u32>>", [⟨"filterable", .assigned "x"⟩, bare]⟩]⟩
    let x : Exposure :=
      ⟨"a", [⟨"userId", .string, "user_id"⟩, ⟨"type", .option (.option .u32), "r#type"⟩]⟩
    d.expose = .ok x ∧ Named "name" d.attributes "r#Event" "a" ∧
      List.Forall₂ Exposes (d.members.filter Member.isExposed) x.fields ∧
      (∀ m ∈ d.members, m.isExposed = true → ∃ t, Supports (TypeExpr.ofText m.type) t) ∧
      TypeExpr.ofText "Option<option::Option<u32>>" =
        .applied "Option" (.applied "Option" (.path "u32")) ∧
      ∀ values, Answers values "type" (d.members.filter Member.isExposed)
        (MemberType.toScalar (.option (.option .u32)) (values "r#type" _)) := by
  intro options bare d x
  have hexpose : d.expose = .ok x := by decide
  obtain ⟨haccepted, hpaths, hresult⟩ := expose_outcome d
  obtain ⟨hname, hexposes, -, hanswers⟩ := hresult x hexpose
  let option : PathName := ⟨"Option".toList, by decide, List.all_eq_true.mp rfl, rfl⟩
  let p : PathText := .applied [] option
    (.applied [⟨"option".toList, by decide, List.all_eq_true.mp rfl, rfl⟩] option
      (.plain [] ⟨"u32".toList, by decide, List.all_eq_true.mp rfl, rfl⟩))
  refine ⟨hexpose, hname, hexposes, (haccepted.mp ⟨x, hexpose⟩).2.2.2, ?_, ?_⟩
  · exact hpaths _ (List.mem_cons_of_mem _ (List.mem_cons_of_mem _ List.mem_cons_self)) p rfl
  · intro values
    exact (hanswers values "type" _).mp rfl

end Declaration

end RecordFilter
