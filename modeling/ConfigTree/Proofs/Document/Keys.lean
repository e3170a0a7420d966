import ConfigTree.Proofs.Document.Expansion
import ConfigTree.Proofs.Json.Proper
import ConfigTree.Proofs.Node.Reordering
import ConfigTree.Proofs.Toml.Names
import ConfigTree.Resolver.Basic

/-!
# Keys of documents

A document that is read has no name twice in an object or table, so the tree
that it is has each key once in every mapping (`hasUniqueKeys_of_readTarget`),
and a document that is no mapping and no sequence is a tree that is none
(`isComposite_of_readTarget`).
-/

namespace ConfigTree

/-! ## Trees of values -/

namespace Node

@[grind =]
theorem ofJsonMembers_eq_map (members : List (String × Json.Value)) :
    ofJsonMembers members =
      members.map fun member => (member.1, ofJson member.2) := by
  induction members with
  | nil => rfl
  | cons first rest inductionHypothesis =>
      rw [ofJsonMembers, inductionHypothesis, List.map_cons]

@[grind =]
theorem ofTomlMembers_eq_map (members : List (String × Toml.Value)) :
    ofTomlMembers members =
      members.map fun member => (member.1, ofToml member.2) := by
  induction members with
  | nil => rfl
  | cons first rest inductionHypothesis =>
      rw [ofTomlMembers, inductionHypothesis, List.map_cons]

@[simp]
theorem keys_ofJsonMembers (members : List (String × Json.Value)) :
    (ofJsonMembers members).map Prod.fst = members.map Prod.fst := by
  rw [ofJsonMembers_eq_map, List.map_map]
  rfl

@[simp]
theorem keys_ofTomlMembers (members : List (String × Toml.Value)) :
    (ofTomlMembers members).map Prod.fst = members.map Prod.fst := by
  rw [ofTomlMembers_eq_map, List.map_map]
  rfl

mutual

theorem hasUniqueKeys_ofJson :
    ∀ value : Json.Value, value.IsProper → (ofJson value).HasUniqueKeys
  | .null, _ => trivial
  | .bool _, _ => trivial
  | .number _, _ => trivial
  | .string _, _ => trivial
  | .array items, proper => haveUniqueKeys_ofJsonItems items proper
  | .object members, ⟨distinct, proper⟩ =>
      ⟨keys_ofJsonMembers members ▸ distinct,
        haveUniqueKeys_ofJsonMembers members proper⟩

theorem haveUniqueKeys_ofJsonItems :
    ∀ items : List Json.Value,
      Json.ItemsAreProper items → ItemsHaveUniqueKeys (ofJsonItems items)
  | [], _ => trivial
  | item :: rest, ⟨here, later⟩ =>
      ⟨hasUniqueKeys_ofJson item here, haveUniqueKeys_ofJsonItems rest later⟩

theorem haveUniqueKeys_ofJsonMembers :
    ∀ members : List (String × Json.Value),
      Json.MembersAreProper members →
        EntriesHaveUniqueKeys (ofJsonMembers members)
  | [], _ => trivial
  | (_, value) :: rest, ⟨here, later⟩ =>
      ⟨hasUniqueKeys_ofJson value here, haveUniqueKeys_ofJsonMembers rest later⟩

end

@[simp]
theorem isComposite_ofReal
    (value : Double) :
    (ofReal value).isComposite = false := by
  unfold ofReal
  split
  · rfl
  · rfl

theorem hasUniqueKeys_of_plain
    {tree : Node} (plain : tree.isComposite = false) :
    tree.HasUniqueKeys := by
  cases tree with
  | sequence items => cases plain
  | mapping entries => cases plain
  | _ => exact trivial

mutual

theorem hasUniqueKeys_ofToml :
    ∀ value : Toml.Value, value.HasUniqueNames → (ofToml value).HasUniqueKeys
  | .string _, _ => trivial
  | .integer _, _ => trivial
  | .real value, _ => hasUniqueKeys_of_plain (isComposite_ofReal value)
  | .bool _, _ => trivial
  | .datetime _, _ => trivial
  | .array items, unique => haveUniqueKeys_ofTomlItems items unique
  | .table members, ⟨distinct, unique⟩ =>
      ⟨keys_ofTomlMembers members ▸ distinct,
        haveUniqueKeys_ofTomlMembers members unique⟩

theorem haveUniqueKeys_ofTomlItems :
    ∀ items : List Toml.Value,
      Toml.ItemsHaveUniqueNames items → ItemsHaveUniqueKeys (ofTomlItems items)
  | [], _ => trivial
  | item :: rest, ⟨here, later⟩ =>
      ⟨hasUniqueKeys_ofToml item here, haveUniqueKeys_ofTomlItems rest later⟩

theorem haveUniqueKeys_ofTomlMembers :
    ∀ members : List (String × Toml.Value),
      Toml.MembersHaveUniqueNames members →
        EntriesHaveUniqueKeys (ofTomlMembers members)
  | [], _ => trivial
  | (_, value) :: rest, ⟨here, later⟩ =>
      ⟨hasUniqueKeys_ofToml value here, haveUniqueKeys_ofTomlMembers rest later⟩

end

mutual

/-- A YAML value that is a tree has each key once in every mapping: its keys are
compared as texts. -/
theorem hasUniqueKeys_of_ofYaml :
    ∀ {value : Yaml.Value} {node : Node},
      ofYaml value = .ok node → node.HasUniqueKeys
  | .null, _, rfl => trivial
  | .bool _, _, rfl => trivial
  | .number (.integer _), _, rfl => trivial
  | .number (.real value), _, rfl =>
      hasUniqueKeys_of_plain (isComposite_ofReal value)
  | .string _, _, rfl => trivial
  | .tagged _ _, _, converted => by
      rw [ofYaml] at converted
      exact hasUniqueKeys_of_ofYaml converted
  | .sequence items, node, converted => by
      rw [ofYaml] at converted
      cases inner : ofYamlItems items with
      | error duplicate => simp [inner] at converted
      | ok nodes =>
          simp only [inner, Except.ok.injEq] at converted
          subst converted
          exact haveUniqueKeys_of_ofYamlItems inner
  | .mapping entries, node, converted => by
      rw [ofYaml] at converted
      cases inner : ofYamlEntries [] entries with
      | error duplicate => simp [inner] at converted
      | ok pairs =>
          simp only [inner, Except.ok.injEq] at converted
          subst converted
          obtain ⟨distinct, _, unique⟩ := haveUniqueKeys_of_ofYamlEntries inner
          exact ⟨distinct, unique⟩

theorem haveUniqueKeys_of_ofYamlItems :
    ∀ {items : List Yaml.Value} {nodes : List Node},
      ofYamlItems items = .ok nodes → ItemsHaveUniqueKeys nodes
  | [], _, rfl => trivial
  | item :: rest, nodes, converted => by
      rw [ofYamlItems] at converted
      cases first : ofYaml item with
      | error duplicate => simp [first] at converted
      | ok node =>
          cases later : ofYamlItems rest with
          | error duplicate => simp [first, later] at converted
          | ok others =>
              simp only [first, later, Except.ok.injEq] at converted
              subst converted
              exact ⟨hasUniqueKeys_of_ofYaml first,
                haveUniqueKeys_of_ofYamlItems later⟩

theorem haveUniqueKeys_of_ofYamlEntries :
    ∀ {before : List String} {entries : List (Yaml.Value × Yaml.Value)}
        {pairs : List (String × Node)},
      ofYamlEntries before entries = .ok pairs →
        (pairs.map Prod.fst).Nodup ∧ (∀ pair ∈ pairs, pair.1 ∉ before) ∧
          EntriesHaveUniqueKeys pairs
  | _, [], _, rfl =>
      ⟨List.nodup_nil, fun _ none => absurd none List.not_mem_nil, trivial⟩
  | before, (key, value) :: rest, pairs, converted => by
      rw [ofYamlEntries] at converted
      by_cases old : keyText key ∈ before
      · simp [old] at converted
      · cases first : ofYaml value with
        | error duplicate => simp [old, first] at converted
        | ok node =>
            cases later : ofYamlEntries (keyText key :: before) rest with
            | error duplicate => simp [old, first, later] at converted
            | ok others =>
                simp only [old, first, later, if_false, Except.ok.injEq]
                  at converted
                subst converted
                obtain ⟨distinct, fresh, unique⟩ :=
                  haveUniqueKeys_of_ofYamlEntries later
                refine ⟨?_, ?_, hasUniqueKeys_of_ofYaml first, unique⟩
                · refine List.nodup_cons.mpr ⟨?_, distinct⟩
                  intro again
                  obtain ⟨pair, member, same⟩ := List.mem_map.mp again
                  exact fresh pair member (same ▸ List.mem_cons_self)
                · refine List.forall_mem_cons.mpr ⟨old, ?_⟩
                  intro pair member earlier
                  exact fresh pair member (List.mem_cons_of_mem _ earlier)

end

private theorem isComposite_of_ofYaml :
    ∀ {value : Yaml.Value} {node : Node},
      Document.isYamlCollection value = false → ofYaml value = .ok node →
        node.isComposite = false
  | .null, _, _, rfl => rfl
  | .bool _, _, _, rfl => rfl
  | .number (.integer _), _, _, rfl => rfl
  | .number (.real value), _, _, rfl => isComposite_ofReal value
  | .string _, _, _, rfl => rfl
  | .tagged _ value, _, plain, converted => by
      have plainInside : Document.isYamlCollection value = false := plain
      rw [ofYaml] at converted
      exact isComposite_of_ofYaml plainInside converted
  | .sequence _, _, plain, _ => nomatch plain
  | .mapping _, _, plain, _ => nomatch plain

end Node

/-! ## Documents -/

namespace Document

/-- No object or table of a JSON or TOML document has a name twice, and every
number of a JSON document is finite. -/
def IsProper : Document → Prop
  | .json value => value.IsProper
  | .toml value => value.HasUniqueNames
  | _ => True

/-- A document that a text holds is proper. -/
theorem isProper_of_ofText?
    {format : Format} {text : String} {document : Document}
    (read : ofText? format text = some document) : document.IsProper := by
  cases format with
  | json =>
      obtain ⟨value, parsed, rfl⟩ := Option.map_eq_some_iff.mp read
      exact Json.isProper_of_ofText? parsed
  | yaml =>
      obtain ⟨value, _, rfl⟩ := Option.map_eq_some_iff.mp read
      exact trivial
  | toml =>
      obtain ⟨value, parsed, rfl⟩ := Option.map_eq_some_iff.mp read
      exact Toml.hasUniqueNames_of_ofText? parsed

private theorem hasUniqueKeys_of_toNode
    {document : Document} {node : Node} (proper : document.IsProper)
    (converted : document.toNode = .ok node) : node.HasUniqueKeys := by
  cases document with
  | json value =>
      cases converted
      exact Node.hasUniqueKeys_ofJson value proper
  | yaml value => exact Node.hasUniqueKeys_of_ofYaml converted
  | toml value =>
      cases converted
      exact Node.hasUniqueKeys_ofToml value proper
  | text content =>
      cases converted
      exact trivial

/-- A document that is no mapping and no sequence is a tree that is none. -/
theorem isComposite_of_toNode
    {document : Document} {node : Node} (plain : document.isComposite = false)
    (converted : document.toNode = .ok node) : node.isComposite = false := by
  cases document with
  | json value =>
      cases converted
      cases value with
      | array items => cases plain
      | object members => cases plain
      | _ => rfl
  | yaml value => exact Node.isComposite_of_ofYaml plain converted
  | toml value =>
      cases converted
      cases value with
      | array items => cases plain
      | table members => cases plain
      | real value => exact Node.isComposite_ofReal value
      | _ => rfl
  | text content =>
      cases converted
      rfl

end Document

/-! ## Files -/

namespace FileSystem

variable {files : FileSystem} {path : Path} {document : Document}

private theorem isProper_of_readDocument
    (read : files.readDocument path = .ok document) :
    document.IsProper := by
  unfold readDocument at read
  split at read
  next => cases read
  next content held =>
    split at read
    next => cases read; exact trivial
    next format known =>
      split at read
      next parsed =>
        cases read
        exact Document.isProper_of_ofText? parsed
      next => cases read

theorem isProper_of_load
    (loaded : files.load path = .ok document) :
    document.IsProper := by
  by_cases yaml : ∃ value, files.readDocument path = .ok (.yaml value)
  · obtain ⟨value, read⟩ := yaml
    obtain ⟨result, rfl, _⟩ := (load_of_yaml read).mp loaded
    exact trivial
  · rw [load_of_not_yaml fun value read => yaml ⟨value, read⟩] at loaded
    exact isProper_of_readDocument loaded

end FileSystem

namespace Setting

theorem readTarget_eq_ok_iff
    {files : FileSystem} {path : Path} {node : Node} {composite : Bool} :
    readTarget files path = .ok (node, composite) ↔
      ∃ document,
        files.load path = .ok document ∧ document.toNode = .ok node ∧
        document.isComposite = composite := by
  unfold readTarget
  cases files.load path with
  | error fault => simp
  | ok document => cases converted : document.toNode <;> simp [converted]

theorem hasUniqueKeys_of_readTarget
    {files : FileSystem} {path : Path} {node : Node} {composite : Bool}
    (read : readTarget files path = .ok (node, composite)) :
    node.HasUniqueKeys := by
  obtain ⟨document, loaded, converted, _⟩ := readTarget_eq_ok_iff.mp read
  exact Document.hasUniqueKeys_of_toNode (FileSystem.isProper_of_load loaded)
    converted

theorem isComposite_of_readTarget
    {files : FileSystem} {path : Path} {node : Node}
    (read : readTarget files path = .ok (node, false)) :
    node.isComposite = false := by
  obtain ⟨document, _, converted, plain⟩ := readTarget_eq_ok_iff.mp read
  exact Document.isComposite_of_toNode plain converted

end Setting

end ConfigTree
