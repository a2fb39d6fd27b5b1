import Mend.Language
import Mend.Severity

/-!
# Platforms
-/

namespace Mend

/-- What an app is built for. -/
inductive Platform where
  | web | reactNative | flutter | ios | android
  deriving Repr, DecidableEq

namespace Platform

/-- The name in records and reports. -/
def name : Platform → String
  | web => "web"
  | reactNative => "react-native"
  | flutter => "flutter"
  | ios => "ios"
  | android => "android"

/-- Every platform. -/
def all : List Platform := [web, reactNative, flutter, ios, android]

/-- The two platforms whose components are written with React. -/
def react : List Platform := [web, reactNative]

/-- The platform with exactly this name. -/
def ofName? (s : String) : Option Platform := all.find? fun p => p.name == s

/-- Other words for a platform. -/
def ofAlias? (s : String) : Option Platform :=
  match s with
  | "react" => some web
  | "reactnative" | "rn" => some reactNative
  | "dart" => some flutter
  | "swift" => some ios
  | "kotlin" => some android
  | _ => none

/-- Read a platform by its name or another word for it; letter case does not count. -/
def parse (s : String) : Except UnknownName Platform :=
  let word := Text.asciiLower s
  match (ofName? word).or (ofAlias? word) with
  | some p => .ok p
  | none => .error ⟨"platform", word⟩

/-- The languages of a platform's sources. -/
def languages : Platform → List Language
  | web | reactNative => [.javaScript, .typeScript]
  | flutter => [.dart]
  | ios => [.swift]
  | android => [.kotlin, .java]

/-- The extensions of a platform's sources. -/
def extensions (p : Platform) : List String := p.languages.flatMap Language.extensions

/-- Read a platform of a record. -/
def ofData? (format : Data.Format) (d : Data) : Option Platform :=
  (d.toName? format).bind ofName?

end Platform

end Mend
