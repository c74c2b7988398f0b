import BookSite.Outline.Forest
import BookSite.Proofs.Site.LiteralRoundTrip
import BookSite.Proofs.Trees
import BookSite.Site.Definition

/-!
# Proofs/Site/DefinitionText — the text of a definition tells its settings

The text of a definition is the literal of an object, and the literal tells the object.  Its fields
have fixed names in a fixed order, and a setting that is not there leaves its field out.  So an
object tells for each name whether the setting is there, and which one it is
(`presentFields_injective`), down to the items of the sidebar at every depth.
-/

namespace BookSite.Site

/-! ## The literal tells the value -/

/-- Different values without floating point numbers have different literals. -/
theorem scriptLiteral_injective {v w : Json} (hv : IntegersOnly v) (hw : IntegersOnly w)
    {depth : Nat} (h : scriptLiteral depth v = scriptLiteral depth w) : v = w := by
  have hread : ∀ {u : Json}, IntegersOnly u →
      readLiteral? (scriptLiteral depth u) = some (u, []) := by
    intro u hu
    have hends : EndsWord [] := by rintro c ⟨⟩
    have hvalue := readValue?_scriptLiteral hu (Nat.le_refl (scriptLiteral depth u).length) hends
    rwa [List.append_nil] at hvalue
  have hsame := (hread hv).symm.trans (h ▸ hread hw)
  exact (Prod.mk.inj (Option.some.inj hsame)).1

/-! ## Fields that may be left out -/

/-- The fields that are there, of named ones that may be left out. -/
def presentFields (fields : List (String × Option Json)) : List (String × Json) :=
  fields.flatMap fun (name, value) => Definition.optional name value

theorem presentFields_cons (name : String) (value : Option Json)
    (rest : List (String × Option Json)) :
    presentFields ((name, value) :: rest) =
      Definition.optional name value ++ presentFields rest := rfl

theorem exists_of_mem_presentFields {name : String} {v : Json}
    {fields : List (String × Option Json)} (h : (name, v) ∈ presentFields fields) :
    (name, some v) ∈ fields := by
  obtain ⟨⟨n, value⟩, hmem, h⟩ := List.mem_flatMap.mp h
  cases value with
  | none => cases h
  | some v' =>
    cases List.mem_singleton.mp h
    exact hmem

/-- **The fields that are there tell those that are not**, where all names are known and different
from each other. -/
theorem presentFields_injective {fields fields' : List (String × Option Json)}
    (hnames : fields.map Prod.fst = fields'.map Prod.fst) (hnodup : (fields.map Prod.fst).Nodup)
    (h : presentFields fields = presentFields fields') : fields = fields' := by
  induction fields generalizing fields' with
  | nil => exact (List.map_eq_nil_iff.mp hnames.symm).symm
  | cons field rest ih =>
    obtain ⟨name, value⟩ := field
    obtain ⟨⟨name', value'⟩, rest', rfl, rfl, hrest⟩ := List.map_eq_cons_iff.mp hnames.symm
    obtain ⟨hnew, hrestNodup⟩ := List.nodup_cons.mp hnodup
    -- A field that is there on one side only would be one of the later ones on the other side.
    have hlater : ∀ {v fields}, fields.map Prod.fst = rest.map Prod.fst →
        (name', v) ∉ presentFields fields := by
      intro v fields hsame hmem
      refine hnew (hsame ▸ List.mem_map.mpr ?_)
      exact ⟨(name', some v), exists_of_mem_presentFields hmem, rfl⟩
    rw [presentFields_cons, presentFields_cons] at h
    cases value with
    | none =>
      cases value' with
      | none => rw [ih hrest.symm hrestNodup h]
      | some v' =>
        have hmem : (name', v') ∈ presentFields rest := by
          have h : presentFields rest = (name', v') :: presentFields rest' := h
          exact h ▸ List.mem_cons_self
        exact absurd hmem (hlater rfl)
    | some v =>
      cases value' with
      | none =>
        have hmem : (name', v) ∈ presentFields rest' := by
          have h : (name', v) :: presentFields rest = presentFields rest' := h
          exact h ▸ List.mem_cons_self
        exact absurd hmem (hlater hrest)
      | some v' =>
        obtain ⟨hfield, hfields⟩ := List.cons.inj h
        rw [ih hrest.symm hrestNodup hfields, (Prod.mk.inj hfield).2]

/-- An object with fixed names tells its fields. -/
theorem ofFields_injective : Function.Injective Json.ofFields := by
  intro fields fields' h
  refine List.map_injective_iff.mpr (fun field field' hfield => ?_) (Json.object.inj h)
  exact Prod.ext (String.toList_inj.mp (Prod.mk.inj hfield).1) (Prod.mk.inj hfield).2

theorem integersOnly_presentFields {fields : List (String × Option Json)}
    (h : ∀ field ∈ fields, ∀ v ∈ field.2, IntegersOnly v) :
    IntegersOnly (.ofFields (presentFields fields)) :=
  .object (List.forall_mem_map.mpr fun _ hfield => h _ (exists_of_mem_presentFields hfield) _ rfl)

/-! ## Items -/

open Branching

namespace SidebarItem

/-- **The fields of an item**: two that are always there, and two that may be left out. -/
def fields (item : SidebarItem) : List (String × Option Json) :=
  [("text", some (.string item.text)), ("link", some (.string item.link)),
    ("items", if item.items.isEmpty then none else some (.array (toJsons item.items))),
    ("collapsed", item.collapsed.map .bool)]

theorem toJson_eq (item : SidebarItem) : item.toJson = .ofFields (presentFields item.fields) := by
  obtain ⟨t, l, is, c⟩ := item
  cases is <;> cases c <;> rfl

/-- An item is told by its value when the items below it are. -/
theorem eq_of_toJson_eq {item item' : SidebarItem}
    (hbelow : ∀ is, toJsons item.items = toJsons is → item.items = is)
    (h : item.toJson = item'.toJson) : item = item' := by
  rw [toJson_eq, toJson_eq] at h
  have hfields : item.fields = item'.fields :=
    presentFields_injective rfl (by simp [fields]) (ofFields_injective h)
  simp only [fields, List.cons.injEq, Prod.mk.injEq, Option.some.injEq, Json.string.injEq, true_and,
    and_true] at hfields
  obtain ⟨htext, hlink, hitems, hcollapsed⟩ := hfields
  have hsame : item.items = item'.items := by
    split at hitems <;> split at hitems
    · simp_all
    · cases hitems
    · cases hitems
    · exact hbelow _ (Json.array.inj (Option.some.inj hitems))
  have hflag : item.collapsed = item'.collapsed :=
    Option.map_injective (fun _ _ hb => Json.bool.inj hb) hcollapsed
  obtain ⟨t, l, is, c⟩ := item
  obtain ⟨t', l', is', c'⟩ := item'
  exact congr (congr (congr (congrArg node htext) hlink) hsame) hflag

/-- **Items are told by their values**, at all depths. -/
theorem toJsons_injective {items items' : List SidebarItem} (h : toJsons items = toJsons items') :
    items = items' := by
  induction items using trees_induction generalizing items' with
  | nil =>
    cases items' with
    | nil => rfl
    | cons item' rest' => cases h
  | cons item rest ihc ihr =>
    cases items' with
    | nil => cases h
    | cons item' rest' =>
      rw [toJsons, toJsons, List.cons.injEq] at h
      rw [eq_of_toJson_eq (fun _ => ihc) h.1, ihr h.2]

theorem integersOnly_toJson {item : SidebarItem} (h : ∀ v ∈ toJsons item.items, IntegersOnly v) :
    IntegersOnly item.toJson := by
  rw [toJson_eq]
  refine integersOnly_presentFields ?_
  simp only [fields, List.forall_mem_cons]
  refine ⟨?_, ?_, fun v hv => ?_, fun v hv => ?_, List.forall_mem_nil _⟩
  · rintro _ ⟨⟩
    exact .string _
  · rintro _ ⟨⟩
    exact .string _
  · split at hv
    · cases hv
    · cases hv
      exact .array h
  · obtain ⟨b, -, rfl⟩ := Option.map_eq_some_iff.mp hv
    exact .bool b

theorem integersOnly_of_mem_toJsons (items : List SidebarItem) :
    ∀ v ∈ toJsons items, IntegersOnly v := by
  induction items using trees_induction with
  | nil => exact List.forall_mem_nil _
  | cons item rest ihc ihr => exact List.forall_mem_cons.mpr ⟨integersOnly_toJson ihc, ihr⟩

end SidebarItem

namespace NavItem

theorem toJson_injective : Function.Injective NavItem.toJson := by
  intro item item' h
  obtain ⟨htext, hlink⟩ : item.text = item'.text ∧ item.link = item'.link := by
    simpa [toJson, Json.ofFields] using h
  obtain ⟨t, l⟩ := item
  obtain ⟨t', l'⟩ := item'
  exact congr (congrArg NavItem.mk htext) hlink

theorem integersOnly_toJson (item : NavItem) : IntegersOnly item.toJson :=
  .object (by simp [IntegersOnly.string])

end NavItem

/-! ## Definitions -/

namespace Definition

/-- The fields of the theme. -/
def themeFields (d : Definition) : List (String × Option Json) :=
  [("nav", d.nav.map fun items => .array (items.map NavItem.toJson)),
    ("sidebar", some (.array (SidebarItem.toJsons d.sidebar))),
    ("socialLinks", d.repository.map fun url =>
      .array [.ofFields [("icon", .ofString "github"), ("link", .string url)]]),
    ("search",
      if d.localSearch then some (.ofFields [("provider", .ofString "local")]) else none)]

theorem theme_eq (d : Definition) : d.theme = .ofFields (presentFields d.themeFields) := by
  simp [theme, themeFields, presentFields, optional]

/-- **The theme tells** the navigation bar, the sidebar, the repository and the search. -/
theorem eq_of_theme_eq {d d' : Definition} (h : d.theme = d'.theme) :
    d.nav = d'.nav ∧ d.sidebar = d'.sidebar ∧ d.repository = d'.repository ∧
      d.localSearch = d'.localSearch := by
  rw [theme_eq, theme_eq] at h
  have hfields : d.themeFields = d'.themeFields :=
    presentFields_injective rfl (by simp [themeFields]) (ofFields_injective h)
  simp only [themeFields, List.cons.injEq, Prod.mk.injEq, Option.some.injEq, Json.array.injEq,
    true_and, and_true] at hfields
  obtain ⟨hnav, hsidebar, hlinks, hsearch⟩ := hfields
  refine ⟨?_, SidebarItem.toJsons_injective hsidebar, ?_, ?_⟩
  · refine Option.map_injective (fun items items' hitems => ?_) hnav
    exact NavItem.toJson_injective.list_map (Json.array.inj hitems)
  · refine Option.map_injective (fun url url' hurl => ?_) hlinks
    simpa [Json.ofFields] using hurl
  · cases hd : d.localSearch <;> cases hd' : d'.localSearch <;> simp [hd, hd'] at hsearch ⊢

theorem integersOnly_theme (d : Definition) : IntegersOnly d.theme := by
  rw [theme_eq]
  refine integersOnly_presentFields ?_
  simp only [themeFields, List.forall_mem_cons]
  refine ⟨fun v hv => ?_, ?_, fun v hv => ?_, fun v hv => ?_, List.forall_mem_nil _⟩
  · obtain ⟨items, -, rfl⟩ := Option.map_eq_some_iff.mp hv
    exact .array (List.forall_mem_map.mpr fun item _ => item.integersOnly_toJson)
  · rintro _ ⟨⟩
    exact .array (SidebarItem.integersOnly_of_mem_toJsons d.sidebar)
  · obtain ⟨url, -, rfl⟩ := Option.map_eq_some_iff.mp hv
    refine .array (List.forall_mem_singleton.mpr (.object ?_))
    simp [Json.ofString, IntegersOnly.string]
  · split at hv
    · cases hv
      exact .object (List.forall_mem_singleton.mpr (.string _))
    · cases hv

/-- The fields of the object. -/
def objectFields (d : Definition) : List (String × Option Json) :=
  [("title", some (.string d.title)), ("description", some (.string d.description)),
    ("lang", some (.string d.lang)), ("base", d.base.map .string), ("themeConfig", some d.theme)]

theorem toJson_eq {d : Definition} (h : d.extra = []) :
    d.toJson = .ofFields (presentFields d.objectFields) := by
  rw [toJson, h, Json.mergeFields]
  simp [ownFields, Json.ofFields, objectFields, presentFields, optional]

/-- **The object of a definition tells all its settings.** -/
theorem eq_of_toJson_eq {d d' : Definition} (hd : d.extra = []) (hd' : d'.extra = [])
    (h : d.toJson = d'.toJson) : d = d' := by
  rw [toJson_eq hd, toJson_eq hd'] at h
  have hfields : d.objectFields = d'.objectFields :=
    presentFields_injective rfl (by simp [objectFields]) (ofFields_injective h)
  simp only [objectFields, List.cons.injEq, Prod.mk.injEq, Option.some.injEq, Json.string.injEq,
    true_and, and_true] at hfields
  obtain ⟨htitle, hdescription, hlang, hbase, htheme⟩ := hfields
  have hbase' : d.base = d'.base := Option.map_injective (fun _ _ hb => Json.string.inj hb) hbase
  obtain ⟨hnav, hsidebar, hrepository, hsearch⟩ := eq_of_theme_eq htheme
  cases d
  cases d'
  simp_all

theorem integersOnly_toJson {d : Definition} (h : d.extra = []) : IntegersOnly d.toJson := by
  rw [toJson_eq h]
  refine integersOnly_presentFields ?_
  simp only [objectFields, List.forall_mem_cons]
  refine ⟨?_, ?_, ?_, fun v hv => ?_, ?_, List.forall_mem_nil _⟩
  · rintro _ ⟨⟩
    exact .string _
  · rintro _ ⟨⟩
    exact .string _
  · rintro _ ⟨⟩
    exact .string _
  · obtain ⟨base, -, rfl⟩ := Option.map_eq_some_iff.mp hv
    exact .string base
  · rintro _ ⟨⟩
    exact d.integersOnly_theme

/-- **The text of a definition confuses no two settings**: definitions without further options that
are written alike are the same, in every setting and in every item of the sidebar. -/
theorem eq_of_render_eq {d d' : Definition} (hd : d.extra = []) (hd' : d'.extra = [])
    (h : d.render = d'.render) : d = d' := by
  have hliteral := List.append_cancel_left (List.append_cancel_right h)
  exact eq_of_toJson_eq hd hd'
    (scriptLiteral_injective (integersOnly_toJson hd) (integersOnly_toJson hd') hliteral)

/-- A definition with the sidebar of an outline, and with an empty navigation bar. -/
def outlinedDefinition : Definition where
  title := "It's\\a 'book'\n".toList
  base := some []
  nav := some []
  sidebar := Site.sidebar (some "de".toList)
    (Outline.parse "- [A', link: '](./a.md)\n  - [B](https://b.org)".toList)
  localSearch := true

/-- The same definition with its items written out. -/
def writtenDefinition : Definition where
  title := "It's\\a 'book'\n".toList
  base := some []
  nav := some []
  sidebar := [.node "A', link: '".toList "/de/a".toList
    [.node "B".toList "https://b.org".toList [] none] (some false)]
  localSearch := true

/-- The two are written alike; and an empty navigation bar is not written like none. -/
theorem eq_of_render_eq_writtenDefinition :
    outlinedDefinition.render = writtenDefinition.render ∧
      outlinedDefinition = writtenDefinition ∧
      { writtenDefinition with nav := none }.render ≠ writtenDefinition.render := by
  have halike : outlinedDefinition.render = writtenDefinition.render := by decide +kernel
  refine ⟨halike, eq_of_render_eq rfl rfl halike, fun h => ?_⟩
  have hnav := congrArg Definition.nav (eq_of_render_eq rfl rfl h)
  cases hnav

end Definition

end BookSite.Site
