import ConfigTree.CommandLine.Basic
import ConfigTree.Proofs.Document.Expansion
import ConfigTree.Proofs.Json.Reading
import ConfigTree.Proofs.Yaml.Ends

/-!
# What a command prints

A run that succeeds prints the tree that it resolved, or the one that its
routing table makes, as the format writes it, with what is blank cut from the
end and a line break put there. In JSON nothing but that line break is added. In
YAML the cut leaves everything as it is exactly when the tree keeps its end
(`Yaml.Value.keepsEnd`); else it goes on into the last string of the tree. Main
statement: `runCommand_prints`.
-/

namespace ConfigTree

open Text (endsInInk trimEnd)

namespace Json

@[simp]
theorem endsInInk_numberText
    (value : Number) :
    endsInInk (numberText value) = true := by
  cases value with
  | integer value => exact Text.endsInInk_toString value
  | real value => exact Double.endsInInk_text (by decide) (by decide) value

@[simp]
theorem endsInInk_indented
    (depth : Nat) (value : Value) :
    endsInInk (indented depth value) = true := by
  cases value with
  | null => rw [indented]; decide
  | bool value => cases value <;> rw [indented] <;> decide
  | number value => exact endsInInk_numberText value
  | string text => exact Text.endsInInk_append (by decide)
  | array items =>
    cases items with
    | nil => rw [indented]; decide
    | cons item rest => exact Text.endsInInk_append (by decide)
  | object members =>
    cases members with
    | nil => rw [indented]; decide
    | cons member rest => exact Text.endsInInk_append (by decide)

@[simp]
theorem trimEnd_indentedText
    (value : Value) :
    trimEnd value.indentedText = value.indentedText := by
  apply Text.trimEnd_eq_self
  rw [Value.indentedText, String.toList_ofList]
  exact endsInInk_indented 0 value

end Json

namespace CommandLine

/-! ## Formats -/

/-- What a format writes for a tree. -/
def OutputFormat.write (format : OutputFormat) (tree : Node) : String :=
  match format with
  | .json => tree.toJson.indentedText
  | .yaml => tree.toYaml.render

/-- A text tells the tree in a format: its reader makes of the text the value
that the tree is written as. Members of JSON objects are read in the order of
their names. -/
def OutputFormat.Tells
    (format : OutputFormat) (text : String) (tree : Node) :
    Prop :=
  match format with
  | .json => Json.Value.ofText? text = some tree.toJson.sorted
  | .yaml => Yaml.Value.ofText? text = some tree.toYaml

/-- Whether printing adds nothing but a line break to a tree in a format, or
takes nothing else away. -/
def OutputFormat.spares (format : OutputFormat) (tree : Node) : Bool :=
  match format with
  | .json => true
  | .yaml => tree.toYaml.keepsEnd

private theorem render_eq
    (format : OutputFormat) (tree : Node) :
    render format tree = trimEnd (format.write tree) ++ "\n" := by
  cases format <;> rfl

private theorem render_json
    (tree : Node) :
    render .json tree = OutputFormat.json.write tree ++ "\n" := by
  simp [render_eq, OutputFormat.write]

private theorem render_yaml_iff (tree : Node) :
    render .yaml tree = OutputFormat.yaml.write tree ↔
      OutputFormat.yaml.spares tree = true := by
  rw [render_eq]
  exact tree.toYaml.trimEnd_render_iff

private theorem tells_render
    {format : OutputFormat} {tree : Node} (spared : format.spares tree = true)
    (told : format.Tells (format.write tree) tree) :
    format.Tells (render format tree) tree := by
  cases format with
  | json =>
    rw [render_json]
    exact Json.Value.ofText?_append (by decide) told
  | yaml => rwa [(render_yaml_iff tree).mpr spared]

/-! ## Commands -/

/-- The tree that a command prints. -/
def Prints (files : FileSystem) (request : Request) : Command → Node → Prop
  | .resolve, tree => ∃ events, resolveFile files request = .ok (tree, events)
  | .routes, tree =>
      ∃ resolved events table,
        resolveFile files request = .ok (resolved, events) ∧
        RoutingTable.bind resolved = .ok table ∧ tree = table.toNode

private theorem exists_prints_of_code
    {files : FileSystem}
    {command : Command}
    {request : Request}
    (ran : (runCommand files command request).code = 0) :
    ∃ tree, Prints files request command tree ∧
      (runCommand files command request).output =
        render request.format tree := by
  unfold runCommand at ran ⊢
  split at ran
  case h_1 refusal failed => cases ran
  case h_2 tree events resolved =>
    cases command with
    | resolve => exact ⟨tree, ⟨events, resolved⟩, rfl⟩
    | routes =>
      dsimp only at ran ⊢
      split at ran
      case h_1 => cases ran
      case h_2 table bound =>
        exact ⟨table.toNode, ⟨tree, events, table, resolved, bound, rfl⟩, rfl⟩

/-- A run that succeeds prints its tree as the format writes it: in JSON with a
line break behind it, in YAML without any change exactly when the tree keeps its
end. What is written is then read as the tree again if it was before. -/
theorem runCommand_prints
    {files : FileSystem}
    {command : Command}
    {request : Request}
    (ran : (runCommand files command request).code = 0) :
    ∃ tree, Prints files request command tree ∧
      (request.format = .json →
        (runCommand files command request).output =
          request.format.write tree ++ "\n") ∧
      (request.format = .yaml →
        ((runCommand files command request).output = request.format.write tree ↔
          tree.toYaml.keepsEnd = true)) ∧
      (request.format.spares tree = true →
        request.format.Tells (request.format.write tree) tree →
        request.format.Tells (runCommand files command request).output
          tree) := by
  obtain ⟨tree, prints, output⟩ := exists_prints_of_code ran
  rw [output]
  refine ⟨tree, prints, ?_, ?_, tells_render⟩
  · intro json
    rw [json, render_json]
  · intro yaml
    rw [yaml, render_yaml_iff]
    rfl

private theorem resolveFile_of_parts
    {files : FileSystem}
    {request : Request}
    {file base : Path}
    {options : Options}
    {tree resolved : Node}
    {journal : Journal}
    (found : absolute files request.file = .ok file)
    (based : baseOf files request file = .ok base)
    (chosen : optionsOf files request = .ok options)
    (read : files.readTree file = .ok tree)
    (ran :
      (⟨base, options, none⟩ : Resolver).resolve files tree =
        (.ok resolved, journal)) :
    resolveFile files request = .ok (resolved, journal.events) := by
  simp only [resolveFile, found, based, chosen, read, ran, bind, Except.bind,
    Except.mapError]
  rfl

/-- The root holds one file, a text. -/
def loneText (text : String) : FileSystem :=
  ⟨[("note", .file text.toUTF8)], []⟩

/-- To resolve that file and print it. -/
def loneRequest (format : OutputFormat) : Request :=
  ⟨"note", none, none, none, none, format, false, false⟩

/-- A text that is no reference is resolved to itself. -/
theorem resolveFile_loneText
    {text : String}
    (plain : Reference.classify text = .ok none)
    (format : OutputFormat) :
    resolveFile (loneText text) (loneRequest format) =
      .ok (.string text, []) := by
  have held : (loneText text).readText (Path.ofText "/note").text = .ok text :=
    FileSystem.readText_placeText ["note"] rfl (by decide)
  have read :
      (loneText text).readDocument (Path.ofText "/note") = .ok (.text text) :=
    FileSystem.readDocument_of_no_format held rfl
  have loaded :
      (loneText text).load (Path.ofText "/note") = .ok (.text text) := by
    rw [FileSystem.load_of_not_yaml, read]
    intro value same
    rw [read] at same
    cases same
  have tree :
      (loneText text).readTree (Path.ofText "/note") = .ok (.string text) := by
    rw [FileSystem.readTree, Setting.readTarget, loaded]
    rfl
  have file : absolute (loneText text) "note" = .ok (Path.ofText "/note") := by
    have sight :
        (loneText text).absoluteText "note" =
          (loneText "").absoluteText "note" :=
      rfl
    have cleaned :
        Path.ofText ((loneText "").absoluteText "note") =
          Path.ofText "/note" := by
      decide
    rw [absolute, FileSystem.absolute, if_neg (by decide), sight, cleaned]
  have base :
      baseOf (loneText text) (loneRequest format) (Path.ofText "/note") =
        .ok (Path.ofText "/") := by
    have parent : (Path.ofText "/note").parent? = some (Path.ofText "/") := by
      decide
    rw [baseOf, loneRequest, parent]
  have options :
      optionsOf (loneText text) (loneRequest format) = .ok Options.default :=
    rfl
  have resolved :
      (⟨Path.ofText "/", Options.default, none⟩ : Resolver).resolve
          (loneText text) (.string text) =
        (.ok (.string text), .start .empty) := by
    have absolute : (Path.ofText "/").isAbsolute = true := by decide
    rw [Resolver.resolve, Resolver.source]
    dsimp only [Options.modulesRoot, Options.default, Except.map]
    rw [Resolver.resolveWithCache, Resolver.absoluteBase, if_pos absolute]
    dsimp only
    rw [Setting.resolveTree, Node.resolveWith, Setting.resolveString, plain]
    rfl
  exact resolveFile_of_parts file base options tree resolved

private theorem ofText?_block
    {text content : String}
    (tokens : Yaml.tokens? text = some [.scalar .literal content, .streamEnd]) :
    Yaml.Value.ofText? text = some (.string content) := by
  have node :
      Yaml.Markup.ofText? text =
        some (some (.scalar none none .literal content)) := by
    rw [Yaml.Markup.ofText?, tokens]
    rfl
  exact Yaml.Value.ofText?_of_compose node (Yaml.Value.compose_string rfl)

private theorem runCommand_loneText
    {text : String}
    (plain : Reference.classify text = .ok none)
    (format : OutputFormat) :
    runCommand (loneText text) .resolve (loneRequest format) =
      ⟨0, render format (.string text), ""⟩ := by
  rw [runCommand, resolveFile_loneText plain]
  rfl

theorem runCommand_prints_loneText :
    (runCommand (loneText "hello\n") .resolve (loneRequest .yaml)).code = 0 ∧
      (runCommand (loneText "hello\n") .resolve (loneRequest .yaml)).output =
        "|\n  hello\n" ∧
      OutputFormat.yaml.Tells
        (runCommand (loneText "hello\n") .resolve (loneRequest .yaml)).output
        (.string "hello\n") := by
  have plain : Reference.classify "hello\n" = .ok none := by decide
  have ran :
      (runCommand (loneText "hello\n") .resolve (loneRequest .yaml)).code =
        0 := by
    rw [runCommand_loneText plain]
  have written :
      OutputFormat.yaml.write (.string "hello\n") = "|\n  hello\n" := by
    decide +kernel
  have told :
      OutputFormat.yaml.Tells (OutputFormat.yaml.write (.string "hello\n"))
        (.string "hello\n") := by
    rw [written]
    exact ofText?_block (by decide +kernel)
  have kept : (Yaml.Value.string "hello\n").keepsEnd = true := by decide +kernel
  obtain ⟨tree, ⟨events, resolved⟩, -, same, tells⟩ := runCommand_prints ran
  obtain ⟨rfl, rfl⟩ : Node.string "hello\n" = tree ∧ [] = events :=
    Prod.mk.inj
      (Except.ok.inj ((resolveFile_loneText plain .yaml).symm.trans resolved))
  exact ⟨ran, ((same rfl).mpr kept).trans written, tells kept told⟩

/-- What is written for a text with two line feeds at its end is read as that
text; what is printed is not. -/
theorem printed_text_loses_break :
    resolveFile (loneText "hello\n\n") (loneRequest .yaml) =
      .ok (.string "hello\n\n", []) ∧
      OutputFormat.yaml.Tells (OutputFormat.yaml.write (.string "hello\n\n"))
        (.string "hello\n\n") ∧
      (runCommand (loneText "hello\n\n") .resolve (loneRequest .yaml)).output =
        "|+\n  hello\n" ∧
      ¬ OutputFormat.yaml.Tells "|+\n  hello\n" (.string "hello\n\n") := by
  have plain : Reference.classify "hello\n\n" = .ok none := by decide
  have written :
      OutputFormat.yaml.write (.string "hello\n\n") = "|+\n  hello\n\n" := by
    decide +kernel
  have printed : render .yaml (.string "hello\n\n") = "|+\n  hello\n" := by
    decide +kernel
  refine ⟨resolveFile_loneText plain .yaml, ?_, ?_, ?_⟩
  · rw [written]
    exact ofText?_block (by decide +kernel)
  · rw [runCommand_loneText plain]
    exact printed
  · intro told
    have read : Yaml.Value.ofText? "|+\n  hello\n" = some (.string "hello\n") :=
      ofText?_block (by decide +kernel)
    have same : "hello\n" = "hello\n\n" :=
      Yaml.Value.string.inj (Option.some.inj (read.symm.trans told))
    exact absurd same (by decide)

end CommandLine

end ConfigTree
