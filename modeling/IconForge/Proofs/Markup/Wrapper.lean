import Mathlib
import IconForge.Markup.Check
import IconForge.Proofs.Xml.ReadThrough

set_option autoImplicit false

/-! # Markup in its wrapper

The wrapper that markup is read in is itself an element as it is written: its opening tag has the
default declaration and those of the prefixes (`toList_wrapperStart`). A prefix is given with its
namespace name as it is spelled between quotes (`Binding`), and inside of the wrapper each prefix is
bound by the last declaration that is given for it (`lookup?_boundTag`). So content that is
well-formed under these bindings is read through in the wrapper (`readDocument_wrap`), and a forest
that is well-formed under the root is, when the declarations of the root are fit to be copied
(`readDocument_wrap_forest`). -/

namespace IconForge

namespace Xml

/-! ## Values of plain characters -/

/-- The value of characters that stand for themselves. -/
def normalized (cs : List Char) : List Char :=
  resolved (cs.map .plain)

theorem mem_resolved {value : List Spelled} {c : Char} (h : c ∈ resolved value) :
    c = ' ' ∨ c ∈ value.map Spelled.char := by
  fun_induction resolved value with
  | case1 => cases h
  | case2 value ih =>
      rcases List.mem_cons.1 h with h | h
      · exact Or.inl h
      · exact (ih h).imp_right fun hmem => List.mem_cons_of_mem _ (List.mem_cons_of_mem _ hmem)
  | case3 d value _ ih =>
      rcases List.mem_cons.1 h with h | h
      · split at h
        · exact Or.inl h
        · exact Or.inr (by rw [h]; exact List.mem_cons_self)
      · exact (ih h).imp_right fun hmem => List.mem_cons_of_mem _ hmem
  | case4 s value _ _ ih =>
      rcases List.mem_cons.1 h with h | h
      · exact Or.inr (by rw [h]; exact List.mem_cons_self)
      · exact (ih h).imp_right fun hmem => List.mem_cons_of_mem _ hmem

/-- A value without blanks is what was written. -/
theorem resolved_eq_map {value : List Spelled} (h : ' ' ∉ resolved value) :
    resolved value = value.map Spelled.char := by
  fun_induction resolved value with
  | case1 => rfl
  | case2 value ih => exact absurd List.mem_cons_self h
  | case3 d value _ ih =>
      rw [List.mem_cons, not_or] at h
      rw [List.map_cons, ih h.2]
      by_cases hd : isSpace d
      · rw [if_pos hd] at h
        exact absurd rfl h.1
      · rw [if_neg hd]
        rfl
  | case4 s value _ _ ih =>
      rw [List.mem_cons, not_or] at h
      rw [List.map_cons, ih h.2]

theorem map_char_plain (cs : List Char) : (cs.map Spelled.plain).map Spelled.char = cs := by
  rw [List.map_map]
  exact List.map_id' cs

theorem mem_normalized {cs : List Char} {c : Char} (h : c ∈ normalized cs) : c = ' ' ∨ c ∈ cs := by
  have hmem := mem_resolved h
  rwa [map_char_plain] at hmem

theorem normalized_ne_nil {cs : List Char} (h : cs ≠ []) : normalized cs ≠ [] := by
  obtain ⟨c, rest, rfl⟩ := List.exists_cons_of_ne_nil h
  rw [normalized, List.map_cons]
  unfold resolved
  split
  · next heq => cases heq
  · exact List.cons_ne_nil _ _
  · exact List.cons_ne_nil _ _
  · exact List.cons_ne_nil _ _

/-- Only a text without blanks itself has a value without blanks. -/
theorem eq_of_normalized_eq {cs target : List Char} (h : normalized cs = target)
    (htarget : ' ' ∉ target) : cs = target := by
  rw [← h] at htarget
  rw [← h, normalized, resolved_eq_map htarget, map_char_plain]

theorem declared?_xmlns (name : List Char) :
    (Name.mk (some xmlnsName) name).declared? = some (some name) := by
  rw [Name.declared?]
  exact if_pos rfl

theorem isSimpleName_of_all {first : Char} {rest : List Char} (hfirst : isNameStart first)
    (hrest : rest.all isNameCharacter) : IsSimpleName (first :: rest) :=
  ⟨first, rest, rfl, hfirst, List.all_eq_true.1 hrest⟩

theorem isSimpleName_singleton {c : Char} (h : isNameStart c) : IsSimpleName [c] :=
  isSimpleName_of_all h rfl

theorem isSimpleName_xmlnsName : IsSimpleName xmlnsName :=
  isSimpleName_of_all (by decide) (by decide)

end Xml

namespace Markup

open Xml

/-! ## The opening tag of the wrapper -/

/-- A declaration with a value of plain characters. -/
def declaration (name : Name) (uri : List Char) : WrittenAttribute where
  gap := [' ']
  name := name
  beforeEquals := []
  afterEquals := []
  quote := '"'
  value := uri.map .plain

def declarationsOf (declarations : List (String × String)) : List WrittenAttribute :=
  declarations.map fun pair => declaration ⟨some xmlnsName, pair.1.toList⟩ pair.2.toList

/-- The opening tag of the wrapper as it is written. -/
def wrapperTag (namespaces : List (String × String)) : WrittenTag where
  name := ⟨none, wrapperName.toList⟩
  attributes := declaration ⟨none, xmlnsName⟩ svgNamespace.toList ::
    declarationsOf (wrapperDeclarations namespaces)
  trailing := []

theorem text_declaration (name : Name) (uri : List Char) :
    (declaration name uri).text = ' ' :: (name.written ++ '=' :: '"' :: (uri ++ ['"'])) := by
  have huri : (uri.map Spelled.plain).flatMap Spelled.text = uri := by
    rw [List.flatMap_map]
    exact List.flatMap_singleton' uri
  simp [WrittenAttribute.text, WrittenAttribute.body, declaration, huri]

/-! ## Bindings -/

/-- A prefix with its namespace name, as it is spelled between double quotes. -/
abbrev Binding := List Char × List Spelled

namespace Binding

/-- A binding as the pair of texts that a root has for it. -/
def written (binding : Binding) : String × String :=
  (String.ofList binding.1, String.ofList (binding.2.flatMap Spelled.text))

/-- A binding with the namespace name that its spelling stands for. -/
def resolved (binding : Binding) : List Char × List Char :=
  (binding.1, Xml.resolved binding.2)

/-- The attribute of the wrapper that makes a binding. -/
def declaration (binding : Binding) : WrittenAttribute where
  gap := [' ']
  name := ⟨some xmlnsName, binding.1⟩
  beforeEquals := []
  afterEquals := []
  quote := '"'
  value := binding.2

/-- A binding keeps to the rules for namespaces. -/
structure Valid (binding : Binding) : Prop where
  name : IsSimpleName binding.1
  value : ∀ s ∈ binding.2, s.Valid ∧ s ≠ .plain '"'
  allowed : AllowedDeclaration (some binding.1) binding.resolved.2

/-- The binding that every wrapper begins with. -/
def xlink : Binding :=
  ("xlink".toList, xlinkNamespace.toList.map .plain)

/-- A prefix with a namespace name of characters that stand for themselves. -/
def plain (pair : String × String) : Binding :=
  (pair.1.toList, pair.2.toList.map .plain)

end Binding

/-- All bindings of the wrapper: that of links and those that are given. -/
def boundBindings (given : List Binding) : List Binding :=
  KeyedList.setAll [Binding.xlink] given

/-- The opening tag of a wrapper with bindings as it is written. -/
def boundTag (given : List Binding) : WrittenTag where
  name := ⟨none, wrapperName.toList⟩
  attributes := declaration ⟨none, xmlnsName⟩ svgNamespace.toList ::
    (boundBindings given).map Binding.declaration
  trailing := []

/-- The scope of prefixes that are given one after the other, with that of links before all. -/
def boundScope (given : List Binding) : Scope :=
  (given.map Binding.resolved).reverse ++ (Binding.xlink.resolved :: Scope.initial)

theorem written_plain (pair : String × String) : (Binding.plain pair).written = pair := by
  have huri : (pair.2.toList.map Spelled.plain).flatMap Spelled.text = pair.2.toList := by
    rw [List.flatMap_map]
    exact List.flatMap_singleton' _
  rw [Binding.written, Binding.plain, huri, String.ofList_toList, String.ofList_toList]

theorem map_written_plain (namespaces : List (String × String)) :
    (namespaces.map Binding.plain).map Binding.written = namespaces := by
  rw [List.map_map]
  exact List.map_id'' written_plain namespaces

theorem wrapperDeclarations_written (given : List Binding) :
    wrapperDeclarations (given.map Binding.written) =
      (boundBindings given).map Binding.written := by
  have hxlink : Binding.xlink.written = ("xlink", xlinkNamespace) :=
    written_plain ("xlink", xlinkNamespace)
  have hinjective : ∀ q other : List Char, String.ofList q = String.ofList other → q = other :=
    fun q other h => String.ofList_injective h
  have hmap := KeyedList.map_setAll hinjective
    (fun value : List Spelled => String.ofList (value.flatMap Spelled.text)) [Binding.xlink] given
  rw [wrapperDeclarations, ← hxlink]
  exact hmap.symm

theorem text_bindingDeclaration (binding : Binding) :
    binding.declaration.text =
      (" xmlns:" ++ binding.written.1 ++ "=\"" ++ binding.written.2 ++ "\"").toList := by
  simp [WrittenAttribute.text, WrittenAttribute.body, Binding.declaration, Binding.written,
    Name.written, xmlnsName]

theorem toList_wrapperStart_written (given : List Binding) :
    (wrapperStart (given.map Binding.written)).toList =
      '<' :: ((boundTag given).text ++ ['>']) := by
  have hdeclarations : ((boundBindings given).map Binding.declaration).flatMap
      WrittenAttribute.text = ((wrapperDeclarations (given.map Binding.written)).map fun pair =>
        " xmlns:" ++ pair.1 ++ "=\"" ++ pair.2 ++ "\"").flatMap String.toList := by
    rw [wrapperDeclarations_written, List.map_map, List.flatMap_map, List.flatMap_map]
    exact List.flatMap_congr fun binding _ => text_bindingDeclaration binding
  show ("<" ++ wrapperName ++ " xmlns=\"" ++ svgNamespace ++ "\"" ++
    String.join ((wrapperDeclarations (given.map Binding.written)).map fun pair =>
      " xmlns:" ++ pair.1 ++ "=\"" ++ pair.2 ++ "\"") ++ ">").toList = _
  simp only [String.toList_append, String.toList_join, ← hdeclarations]
  simp [WrittenTag.text, boundTag, text_declaration, Name.written, xmlnsName]

theorem wrapperTag_eq (namespaces : List (String × String)) :
    wrapperTag namespaces = boundTag (namespaces.map Binding.plain) := by
  have hplain : boundBindings (namespaces.map Binding.plain) =
      (wrapperDeclarations namespaces).map Binding.plain := by
    have hinjective : ∀ name other : String, name.toList = other.toList → name = other :=
      fun name other h => String.toList_injective h
    exact (KeyedList.map_setAll hinjective (fun uri : String => uri.toList.map Spelled.plain)
      [("xlink", xlinkNamespace)] namespaces).symm
  rw [wrapperTag, boundTag, hplain, List.map_map]
  rfl

theorem toList_wrapperStart (namespaces : List (String × String)) :
    (wrapperStart namespaces).toList = '<' :: ((wrapperTag namespaces).text ++ ['>']) := by
  rw [wrapperTag_eq, ← toList_wrapperStart_written, map_written_plain]

/-! ## The rules for the wrapper -/

theorem plain_of_all {uri : String}
    (h : uri.toList.all fun c => isLegal c && c ≠ '<' && c ≠ '&' && c ≠ '"') :
    ∀ s ∈ uri.toList.map Spelled.plain, s.Valid ∧ s ≠ .plain '"' := by
  intro s hs
  obtain ⟨c, hc, rfl⟩ := List.mem_map.1 hs
  have hall := List.all_eq_true.1 h c hc
  simp only [Bool.and_eq_true, decide_eq_true_eq] at hall
  obtain ⟨⟨⟨hlegal, hlt⟩, hamp⟩, hquote⟩ := hall
  exact ⟨⟨hlegal, hlt, hamp⟩, fun heq => hquote (Spelled.plain.inj heq)⟩

theorem valid_xlink : Binding.xlink.Valid where
  name := isSimpleName_of_all (by decide) (by decide)
  value := plain_of_all (by decide)
  allowed := {
    nonempty := fun _ => by decide
    not_xmlns := by decide
    separator := by decide
    xml := by decide
    not_xmlnsNamespace := by decide }

theorem allowedDeclaration_svgNamespace :
    AllowedDeclaration none (normalized svgNamespace.toList) where
  nonempty := fun hne => absurd rfl hne
  not_xmlns := by decide
  separator := by decide
  xml := by decide
  not_xmlnsNamespace := by decide

section Bound

variable {given : List Binding}

theorem valid_of_mem_boundBindings (h : ∀ binding ∈ given, binding.Valid) :
    ∀ binding ∈ boundBindings given, binding.Valid := by
  intro binding hmem
  rcases KeyedList.mem_setAll hmem with hmem | hmem
  · rw [List.mem_singleton.1 hmem]
    exact valid_xlink
  · exact h binding hmem

theorem nodup_boundBindings : ((boundBindings given).map (·.1)).Nodup :=
  KeyedList.nodup_setAll (List.nodup_singleton _)

/-- A declaration of the wrapper may be written when its name and its value may. -/
theorem valid_of_declaration {a : WrittenAttribute} (hgap : a.gap = [' '])
    (hspaces : a.beforeEquals = [] ∧ a.afterEquals = []) (hquote : a.quote = '"')
    (hname : a.name.Valid) (hvalue : ∀ s ∈ a.value, s.Valid ∧ s ≠ .plain '"') : a.Valid where
  gap_ne := by rw [hgap]; exact List.cons_ne_nil _ _
  gap := by
    intro c hc
    rw [hgap, List.mem_singleton] at hc
    rw [hc]
    decide
  name := hname
  beforeEquals := by
    intro c hc
    rw [hspaces.1] at hc
    cases hc
  afterEquals := by
    intro c hc
    rw [hspaces.2] at hc
    cases hc
  quote := Or.inl hquote
  value := by rwa [hquote]

theorem valid_boundTag (h : ∀ binding ∈ given, binding.Valid) : (boundTag given).Valid where
  name := ⟨by rintro q ⟨⟩, isSimpleName_of_all (by decide) (by decide)⟩
  attributes := by
    intro a ha
    rcases List.mem_cons.1 ha with rfl | ha
    · exact valid_of_declaration rfl ⟨rfl, rfl⟩ rfl
        ⟨by rintro q ⟨⟩, isSimpleName_xmlnsName⟩ (plain_of_all (by decide))
    · obtain ⟨binding, hbinding, rfl⟩ := List.mem_map.1 ha
      have hvalid := valid_of_mem_boundBindings h binding hbinding
      refine valid_of_declaration rfl ⟨rfl, rfl⟩ rfl ⟨?_, hvalid.name⟩ hvalid.value
      rintro q ⟨⟩
      exact isSimpleName_xmlnsName
  trailing := by
    intro c hc
    cases hc

theorem plainNames_boundTag : (boundTag given).plainNames = [] := by
  rw [WrittenTag.plainNames, List.filter_eq_nil_iff]
  intro name hname
  obtain ⟨a, ha, rfl⟩ := List.mem_map.1 hname
  rcases List.mem_cons.1 ha with rfl | ha
  · decide
  · obtain ⟨binding, -, rfl⟩ := List.mem_map.1 ha
    simp [Binding.declaration, Name.declared?]

theorem element_boundTag : (boundTag given).element = ⟨wrapperName.toList, []⟩ := by
  rw [WrittenTag.element, plainNames_boundTag]
  rfl

theorem wellFormed_boundTag (h : ∀ binding ∈ given, binding.Valid) :
    (boundTag given).WellFormed .initial where
  names := by
    have hnames : (boundTag given).attributes.map (·.name) = ⟨none, xmlnsName⟩ ::
        ((boundBindings given).map (·.1)).map (Name.mk (some xmlnsName)) := by
      simp [boundTag, declaration, Binding.declaration]
    rw [hnames, List.nodup_cons]
    constructor
    · rw [List.mem_map]
      -- The default namespace is declared without a prefix, so no other declaration has its name.
      rintro ⟨name, -, heq⟩
      cases heq
    · exact List.Nodup.map (fun name other heq => (Name.mk.inj heq).2) nodup_boundBindings
  declarations := by
    intro a ha q hq
    rcases List.mem_cons.1 ha with rfl | ha
    · rw [show (declaration ⟨none, xmlnsName⟩ svgNamespace.toList).name.declared? = some none by
        rfl] at hq
      cases hq
      exact allowedDeclaration_svgNamespace
    · obtain ⟨binding, hbinding, rfl⟩ := List.mem_map.1 ha
      have hdeclared : binding.declaration.name.declared? = some (some binding.1) :=
        declared?_xmlns _
      rw [hdeclared] at hq
      cases hq
      exact (valid_of_mem_boundBindings h binding hbinding).allowed
  bound := by
    rw [plainNames_boundTag]
    intro name hname
    cases hname
  expanded := by
    rw [plainNames_boundTag]
    exact List.nodup_nil
  nameBound := by
    rintro q ⟨⟩

/-! ## The scope inside of the wrapper -/

/-- Declarations are put in front of the scope one after the other. -/
theorem declaring_bindings (bindings : List Binding) (scope : Scope) :
    scope.declaring (bindings.map Binding.declaration) =
      (bindings.map Binding.resolved).reverse ++ scope := by
  induction bindings generalizing scope with
  | nil => rfl
  | cons binding bindings ih =>
      have hdeclared : binding.declaration.name.declared? = some (some binding.1) :=
        declared?_xmlns _
      rw [List.map_cons, Scope.declaring, hdeclared]
      simp only
      rw [ih, List.map_cons, List.reverse_cons, List.append_assoc]
      rfl

/-- **Inside of the wrapper every prefix is bound as in the scope of the bindings that are
given.** -/
theorem lookup?_boundTag (q : List Char) :
    (Scope.initial.declaring (boundTag given).attributes).lookup? q =
      (boundScope given).lookup? q := by
  have hdeclaring : Scope.initial.declaring (boundTag given).attributes =
      ((boundBindings given).map Binding.resolved).reverse ++ Scope.initial :=
    declaring_bindings _ _
  have hmap : (boundBindings given).map Binding.resolved =
      KeyedList.setAll [Binding.xlink.resolved] (given.map Binding.resolved) :=
    KeyedList.map_setAll (fun _ _ h => h) Xml.resolved [Binding.xlink] given
  have hnodup : (((boundBindings given).map Binding.resolved).map (·.1)).Nodup := by
    rw [List.map_map]
    exact nodup_boundBindings
  have hsingle : ∀ scope : Scope, Binding.xlink.resolved :: scope =
      [Binding.xlink.resolved] ++ scope := fun _ => rfl
  rw [hdeclaring, boundScope, hsingle, Scope.lookup?, Scope.lookup?, KeyedList.get?_append,
    KeyedList.get?_reverse hnodup, hmap, KeyedList.get?_setAll, KeyedList.get?_append,
    KeyedList.get?_append, Option.or_assoc]

/-- **Content is read through in the wrapper** when it is well-formed under the bindings that are
given. -/
theorem readDocument_wrap {content : Content} (h : ∀ binding ∈ given, binding.Valid)
    (hvalid : content.Valid) (hwell : content.WellFormed (boundScope given)) :
    readDocument (wrap (given.map Binding.written) (String.ofList content.text)).toList =
      .ok (⟨wrapperName.toList, []⟩ :: content.elements) := by
  have htext : (wrap (given.map Binding.written) (String.ofList content.text)).toList =
      '<' :: ((boundTag given).text ++ (tagEnd false ++ (content.text ++
        closingText (boundTag given).name.written [] []))) := by
    rw [wrap, String.toList_append, String.toList_append, toList_wrapperStart_written,
      String.toList_ofList]
    simp [tagEnd, wrapperEnd, boundTag, Name.written, closingText]
  have hextends : (Scope.initial.declaring (boundTag given).attributes).Extends
      (boundScope given) := by
    intro q uri hlookup
    rw [lookup?_boundTag, hlookup]
  rw [htext, readDocument_root (valid_boundTag h) (wellFormed_boundTag h) hvalid
    (hwell.mono hextends), element_boundTag]

end Bound

/-! ## Declarations that may be copied -/

/-- A prefix with a namespace name that may be declared in the wrapper as it stands. -/
structure Declarable (pair : String × String) : Prop where
  name : IsSimpleName pair.1.toList
  not_xml : pair.1.toList ≠ xmlPrefix
  not_xmlns : pair.1.toList ≠ xmlnsName
  uri_ne : pair.2.toList ≠ []
  uri : ∀ c ∈ pair.2.toList,
    isLegal c ∧ c ≠ '<' ∧ c ≠ '&' ∧ c ≠ '"' ∧ c ≠ expandedNameSeparator
  not_xmlNamespace : pair.2.toList ≠ xmlNamespace
  not_xmlnsNamespace : pair.2.toList ≠ xmlnsNamespace

theorem blank_notMem_xmlNamespace : ' ' ∉ xmlNamespace := by
  decide

theorem blank_notMem_xmlnsNamespace : ' ' ∉ xmlnsNamespace := by
  decide

theorem Declarable.valid {pair : String × String} (h : Declarable pair) :
    (Binding.plain pair).Valid where
  name := h.name
  value := by
    intro s hs
    obtain ⟨c, hc, rfl⟩ := List.mem_map.1 hs
    obtain ⟨hlegal, hlt, hamp, hquote, -⟩ := h.uri c hc
    exact ⟨⟨hlegal, hlt, hamp⟩, fun heq => hquote (Spelled.plain.inj heq)⟩
  allowed := {
    nonempty := fun _ => normalized_ne_nil h.uri_ne
    not_xmlns := fun heq => h.not_xmlns (Option.some.inj heq)
    separator := by
      intro hmem
      rcases mem_normalized hmem with heq | hmem
      · exact absurd heq (by decide)
      · exact (h.uri _ hmem).2.2.2.2 rfl
    xml := by
      rw [Option.some.injEq]
      exact iff_of_false h.not_xml fun heq =>
        h.not_xmlNamespace (eq_of_normalized_eq heq blank_notMem_xmlNamespace)
    not_xmlnsNamespace := fun heq =>
      h.not_xmlnsNamespace (eq_of_normalized_eq heq blank_notMem_xmlnsNamespace) }

/-- The scope inside of a root that declares these prefixes. -/
def declaredScope (namespaces : List (String × String)) : Scope :=
  namespaces.map (fun pair => (pair.1.toList, normalized pair.2.toList)) ++ Scope.initial

/-- **The wrapper binds every prefix of the root** to the same namespace name. -/
theorem extends_declaredScope {namespaces : List (String × String)}
    (hnodup : (namespaces.map (·.1)).Nodup) :
    (boundScope (namespaces.map Binding.plain)).Extends (declaredScope namespaces) := by
  have hmap : (namespaces.map Binding.plain).map Binding.resolved =
      namespaces.map (fun pair => (pair.1.toList, normalized pair.2.toList)) := by
    rw [List.map_map]
    rfl
  have hkeys : ((namespaces.map fun pair => (pair.1.toList, normalized pair.2.toList)).map
      (·.1)).Nodup := by
    have := hnodup.map (f := String.toList) fun _ _ heq => String.toList_injective heq
    rwa [List.map_map] at this ⊢
  intro q uri hlookup
  rw [declaredScope, Scope.lookup?, KeyedList.get?_append] at hlookup
  rw [boundScope, hmap, Scope.lookup?, KeyedList.get?_append, KeyedList.get?_reverse hkeys]
  cases hget : KeyedList.get? (namespaces.map fun pair =>
      (pair.1.toList, normalized pair.2.toList)) q with
  | some found =>
      rw [hget] at hlookup
      exact hlookup
  | none =>
      rw [hget, Option.none_or] at hlookup
      have hxml : (q, uri) = (xmlPrefix, xmlNamespace) :=
        List.mem_singleton.1 (KeyedList.mem_of_get? hlookup)
      cases hxml
      rfl

/-! ## Elements without an offence -/

/-- The check passes exactly the elements that hold no script and have no attribute for events. -/
theorem elementOffence?_eq_none_iff {element : Element} : elementOffence? element = none ↔
    small element.name ≠ ['s', 'c', 'r', 'i', 'p', 't'] ∧
      ∀ name ∈ element.attributes, ¬ ['o', 'n'] <+: small name := by
  rw [elementOffence?]
  by_cases hscript : isScript element
  · rw [if_pos hscript]
    rw [isScript, decide_eq_true_eq] at hscript
    exact iff_of_false (by simp) fun h => h.1 hscript
  · rw [if_neg hscript, Option.map_eq_none_iff, List.find?_eq_none]
    rw [isScript, decide_eq_true_eq] at hscript
    simp only [isEventHandler, List.isPrefixOf_iff_prefix]
    exact ⟨fun h => ⟨hscript, h⟩, fun h => h.2⟩

/-! ## Reading a forest in the wrapper -/

/-- **A forest is read through in the wrapper**, when it is well-formed under a root with the same
declarations. -/
theorem readDocument_wrap_forest {namespaces : List (String × String)} {forest : Forest}
    (h : ∀ pair ∈ namespaces, Declarable pair) (hnodup : (namespaces.map (·.1)).Nodup)
    (hvalid : forest.Valid) (hwell : forest.WellFormed (declaredScope namespaces)) :
    readDocument (wrap namespaces (String.ofList forest.text)).toList =
      .ok (⟨wrapperName.toList, []⟩ :: forest.elements) := by
  have hbindings : ∀ binding ∈ namespaces.map Binding.plain, binding.Valid := by
    intro binding hmem
    obtain ⟨pair, hpair, rfl⟩ := List.mem_map.1 hmem
    exact (h pair hpair).valid
  have hread := readDocument_wrap hbindings hvalid.content
    (hwell.content.mono (extends_declaredScope hnodup))
  rwa [map_written_plain, Forest.text_content, Forest.elements_content] at hread

end Markup

end IconForge
