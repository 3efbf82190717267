import Mathlib.Data.List.Basic
import Mathlib.Data.String.Basic
import Enarx.Control

/-!
# The file descriptors of a configuration

`Config` as it is deserialized, and the environment variables from which the
workload learns the names of its file descriptors. The TOML parser hands over a
tree of values, the deserializer of the configuration takes what it needs from it.
-/
namespace Enarx.Wasmtime

theorem not_mem_of_mem_splitOn {α : Type} [BEq α] [LawfulBEq α] {sep : α} {list part : List α}
    (h : part ∈ list.splitOn sep) : sep ∉ part := by
  induction list generalizing part with
  | nil => simp_all
  | cons head tail ih =>
    rw [List.splitOn_cons_eq_if_modifyHead] at h
    split at h
    · next heq =>
      rcases List.mem_cons.mp h with rfl | hrest
      · exact List.not_mem_nil
      · exact ih hrest
    · next hne =>
      obtain ⟨first, rest, hparts⟩ := List.exists_cons_of_ne_nil (List.splitOn_ne_nil sep tail)
      rw [hparts] at h ih
      rcases List.mem_cons.mp h with rfl | hrest
      · rintro hmem
        rcases List.mem_cons.mp hmem with rfl | hmem
        · exact hne (beq_self_eq_true _)
        · exact ih List.mem_cons_self hmem
      · exact ih (List.mem_cons_of_mem _ hrest)

def splitColon (text : String) : List String := (text.toList.splitOn ':').map String.ofList

theorem splitColon_intercalate_iff {names : List String} (hsome : names ≠ []) :
    splitColon (":".intercalate names) = names ↔ ∀ name ∈ names, ':' ∉ name.toList := by
  constructor
  · intro hsplit name hname
    rw [← hsplit] at hname
    obtain ⟨part, hpart, rfl⟩ := List.mem_map.mp hname
    rw [String.toList_ofList]
    exact not_mem_of_mem_splitOn hpart
  · intro hfree
    have hparts : (":".intercalate names).toList.splitOn ':' = names.map String.toList := by
      rw [String.toList_intercalate]
      apply List.splitOn_intercalate
      · simpa using hfree
      · simpa using hsome
    rw [splitColon, hparts, List.map_map]
    simp [Function.comp_def]

inductive Toml where
  | string (value : String)
  | integer (value : Int)
  | array (items : List Toml)
  | table (entries : List (String × Toml))
  | other

inductive ConfigError where
  | custom (text : String)
  | serde
  deriving DecidableEq, Repr

abbrev Deserialize (α : Type) := Except ConfigError α

namespace Toml

def asString : Toml → Deserialize String
  | .string value => .ok value
  | _ => .error .serde

def asArray (item : Toml → Deserialize α) : Toml → Deserialize (List α)
  | .array items => items.mapM item
  | _ => .error .serde

def asTable (item : Toml → Deserialize α) : Toml → Deserialize (List (String × α))
  | .table entries => entries.mapM fun entry => do return (entry.1, ← item entry.2)
  | _ => .error .serde

def asPort : Toml → Deserialize (Fin 65536)
  | .integer value =>
    if h : 0 ≤ value ∧ value < 65536 then .ok ⟨value.toNat, by omega⟩ else .error .serde
  | _ => .error .serde

end Toml

def required (entries : List (String × Toml)) (key : String) (item : Toml → Deserialize α) :
    Deserialize α :=
  match entries.lookup key with
  | some value => item value
  | none => .error .serde

def defaulted (entries : List (String × Toml)) (key : String) (item : Toml → Deserialize α)
    (default : α) : Deserialize α :=
  match entries.lookup key with
  | some value => item value
  | none => .ok default

def optional (entries : List (String × Toml)) (key : String) (item : Toml → Deserialize α) :
    Deserialize (Option α) :=
  defaulted entries key (fun value => some <$> item value) none

structure FileName where
  text : String
  deriving DecidableEq, Repr

def FileName.deserialize (value : Toml) : Deserialize FileName := do
  let name ← value.asString
  if name.toList.contains ':' then
    throw (.custom "invalid value for `name` contains ':'")
  else
    return ⟨name⟩

inductive Protocol where
  | tls | tcp
  deriving DecidableEq, Repr

def Protocol.deserialize : Toml → Deserialize Protocol
  | .string "tls" => .ok .tls
  | .string "tcp" => .ok .tcp
  | _ => .error .serde

def defaultPort : Fin 65536 := 443

def defaultAddr : String := "::"

inductive File where
  | null (name : Option FileName)
  | stdin (name : Option FileName)
  | stdout (name : Option FileName)
  | stderr (name : Option FileName)
  | listen (name : FileName) (addr : String) (port : Fin 65536) (prot : Protocol)
  | connect (name : Option FileName) (host : String) (port : Fin 65536) (prot : Protocol)
  deriving DecidableEq, Repr

namespace File

def deserialize (value : Toml) : Deserialize File := do
  match value with
  | .table entries =>
    let name := optional entries "name" FileName.deserialize
    let port := defaulted entries "port" Toml.asPort defaultPort
    let prot := defaulted entries "prot" Protocol.deserialize .tls
    match ← required entries "kind" Toml.asString with
    | "null" => return .null (← name)
    | "stdin" => return .stdin (← name)
    | "stdout" => return .stdout (← name)
    | "stderr" => return .stderr (← name)
    | "listen" =>
      return .listen (← required entries "name" FileName.deserialize)
        (← defaulted entries "addr" Toml.asString defaultAddr) (← port) (← prot)
    | "connect" =>
      return .connect (← name) (← required entries "host" Toml.asString) (← port) (← prot)
    | _ => throw .serde
  | _ => throw .serde

def name : File → String
  | .null name => (name.map FileName.text).getD "null"
  | .stdin name => (name.map FileName.text).getD "stdin"
  | .stdout name => (name.map FileName.text).getD "stdout"
  | .stderr name => (name.map FileName.text).getD "stderr"
  | .listen name .. => name.text
  | .connect name host .. => (name.map FileName.text).getD host

end File

structure Config where
  env : List (String × String)
  args : List String
  files : List File
  steward : Option String
  deriving DecidableEq, Repr

def Config.deserialize (isUrl : String → Bool) (value : Toml) : Deserialize Config := do
  match value with
  | .table entries =>
    let env ← defaulted entries "env" (Toml.asTable Toml.asString) []
    let args ← defaulted entries "args" (Toml.asArray Toml.asString) []
    let files ← defaulted entries "files" (Toml.asArray File.deserialize) []
    let steward ← optional entries "steward" Toml.asString
    if (steward.map isUrl).getD true then
      return { env, args, files, steward }
    else throw .serde
  | _ => throw .serde

def fdCount (config : Config) : String := toString config.files.length

def fdNames (config : Config) : String := ":".intercalate (config.files.map File.name)

structure NamesDecode (config : Config) : Prop where
  names : splitColon (fdNames config) = config.files.map File.name
  count : toString (splitColon (fdNames config)).length = fdCount config

def File.explicit : File → Option FileName
  | .null name | .stdin name | .stdout name | .stderr name => name
  | .listen name .. => some name
  | .connect name .. => name

def File.HostFree : File → Prop
  | .connect none host .. => ':' ∉ host.toList
  | _ => True

def FileName.Free (name : FileName) : Prop := ':' ∉ name.text.toList

theorem FileName.deserialize_free (value : Toml) : Except.Ensures Free (deserialize value) := by
  refine (Except.Ensures.any _).bind fun text _ => .ite (fun _ => .error _) fun hfree => .ok ?_
  simpa [Free] using hfree

theorem optional_ensures {P : α → Prop} {item : Toml → Deserialize α}
    (h : ∀ value, Except.Ensures P (item value)) (entries : List (String × Toml)) (key : String) :
    Except.Ensures (fun value => ∀ found ∈ value, P found) (optional entries key item) := by
  unfold optional defaulted
  split
  · next value _ =>
    intro found hfound
    dsimp only at hfound
    cases hitem : item value with
    | error error =>
      rw [hitem] at hfound
      cases hfound
    | ok result =>
      rw [hitem] at hfound
      cases hfound
      rintro _ ⟨⟩
      exact h value result hitem
  · exact .ok nofun

theorem required_ensures {P : α → Prop} {item : Toml → Deserialize α}
    (h : ∀ value, Except.Ensures P (item value)) (entries : List (String × Toml)) (key : String) :
    Except.Ensures P (required entries key item) := by
  unfold required
  split
  · exact h _
  · exact .error _

theorem File.deserialize_free (value : Toml) :
    Except.Ensures (fun file => ∀ name ∈ file.explicit, name.Free) (deserialize value) := by
  unfold deserialize
  split
  · next entries =>
    have hname := optional_ensures FileName.deserialize_free entries "name"
    refine (Except.Ensures.any _).bind fun kind _ => ?_
    split
    · exact hname.bind fun _ hfree => .ok hfree
    · exact hname.bind fun _ hfree => .ok hfree
    · exact hname.bind fun _ hfree => .ok hfree
    · exact hname.bind fun _ hfree => .ok hfree
    · refine (required_ensures FileName.deserialize_free entries "name").bind fun name hfree =>
        (Except.Ensures.any _).bind fun _ _ => (Except.Ensures.any _).bind fun _ _ =>
        (Except.Ensures.any _).bind fun _ _ => .ok ?_
      rintro _ ⟨⟩
      exact hfree
    · exact hname.bind fun name hfree => (Except.Ensures.any _).bind fun _ _ =>
        (Except.Ensures.any _).bind fun _ _ => (Except.Ensures.any _).bind fun _ _ => .ok hfree
    · exact .error _
  · exact .error _

theorem mapM_ensures {P : β → Prop} {item : α → Deserialize β}
    (h : ∀ value, Except.Ensures P (item value)) (items : List α) :
    Except.Ensures (fun values => ∀ value ∈ values, P value) (items.mapM item) := by
  induction items with
  | nil => exact .ok nofun
  | cons head tail ih =>
    rw [List.mapM_cons]
    exact (h head).bind fun first hfirst => ih.bind fun rest hrest =>
      .ok (List.forall_mem_cons.mpr ⟨hfirst, hrest⟩)

theorem Config.deserialize_free (isUrl : String → Bool) (value : Toml) :
    Except.Ensures (fun config => ∀ file ∈ config.files, ∀ name ∈ file.explicit, name.Free)
      (deserialize isUrl value) := by
  unfold deserialize
  split
  · next entries =>
    have hfiles : Except.Ensures (fun files => ∀ file ∈ files, ∀ name ∈ file.explicit, name.Free)
        (defaulted entries "files" (Toml.asArray File.deserialize) []) := by
      unfold defaulted
      split
      · unfold Toml.asArray
        split
        · exact mapM_ensures File.deserialize_free _
        · exact .error _
      · exact .ok nofun
    refine (Except.Ensures.any _).bind fun _ _ => (Except.Ensures.any _).bind fun _ _ =>
      hfiles.bind fun files hfree => (Except.Ensures.any _).bind fun _ _ => ?_
    exact .ite (fun _ => .ok hfree) fun _ => .error _
  · exact .error _

theorem File.name_free_iff {file : File} (h : ∀ name ∈ file.explicit, name.Free) :
    ':' ∉ file.name.toList ↔ file.HostFree := by
  cases file with
  | listen name addr port prot => exact iff_of_true (h name rfl) trivial
  | null name | stdin name | stdout name | stderr name =>
    cases name with
    | none => exact iff_of_true (by decide) trivial
    | some name => exact iff_of_true (h name rfl) trivial
  | connect name host port prot =>
    cases name with
    | none => exact Iff.rfl
    | some name => exact iff_of_true (h name rfl) trivial

/-- The variables of a configuration decode exactly if no connection takes its name from a host
with a colon. -/
theorem fd_names_decode_iff (isUrl : String → Bool) (value : Toml) (config : Config)
    (hconfig : Config.deserialize isUrl value = .ok config) (hsome : config.files ≠ []) :
    NamesDecode config ↔ ∀ file ∈ config.files, file.HostFree := by
  have hfree := Config.deserialize_free isUrl value config hconfig
  have hnames : config.files.map File.name ≠ [] := by simpa using hsome
  have hsplit := splitColon_intercalate_iff hnames
  have hhosts : (∀ name ∈ config.files.map File.name, ':' ∉ name.toList) ↔
      ∀ file ∈ config.files, file.HostFree := by
    rw [List.forall_mem_map]
    exact forall₂_congr fun file hfile => File.name_free_iff (hfree file hfile)
  rw [← hhosts, ← hsplit]
  constructor
  · exact fun h => h.names
  · intro h
    refine ⟨h, ?_⟩
    rw [fdNames, h, fdCount, List.length_map]

def sampleConfig (host : String) : Toml :=
  .table [("files", .array [.table [("kind", .string "stdin")],
    .table [("kind", .string "connect"), ("host", .string host)]])]

theorem fd_names_decode_localhost :
    ∃ config, Config.deserialize (fun _ => true) (sampleConfig "localhost") = .ok config ∧
      NamesDecode config := by
  refine ⟨⟨[], [], [.stdin none, .connect none "localhost" 443 .tls], none⟩, rfl, ?_⟩
  apply (fd_names_decode_iff (fun _ => true) (sampleConfig "localhost")
    ⟨[], [], [.stdin none, .connect none "localhost" 443 .tls], none⟩ rfl (by decide)).mpr
  simp only [List.forall_mem_cons, File.HostFree]
  exact ⟨trivial, by decide, nofun⟩

/-- A connection to the IPv6 loopback address. -/
theorem fd_names_not_decoded :
    ∃ config, Config.deserialize (fun _ => true) (sampleConfig "::1") = .ok config ∧
      fdCount config = "2" ∧ fdNames config = "stdin:::1" ∧
      splitColon (fdNames config) = ["stdin", "", "", "1"] ∧ ¬NamesDecode config := by
  refine ⟨⟨[], [], [.stdin none, .connect none "::1" 443 .tls], none⟩, rfl, rfl, rfl, ?_, ?_⟩
  · decide
  · intro h
    exact absurd h.names (by decide)

end Enarx.Wasmtime
