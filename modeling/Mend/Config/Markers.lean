import Mend.FileTree
import Mend.Platform

/-!
# Guessing the platform

Files and directories in a project's root speak for one platform or another. The platform with the
most points wins, the first in the list where several have as many; too few points decide nothing.
-/

namespace Mend.Markers

/-- Points for a marker that is there. -/
def points (n : Nat) (there : Bool) : Nat := if there then n else 0

/-- One of several names is in the directory. -/
def hasAny (t : FileTree) (root : Path) (names : List String) : Bool :=
  names.any fun n => t.contains (root.join n)

/-- A file of the directory as text. -/
def textOf? (t : FileTree) (root : Path) (name : String) : Option String :=
  match t.readText (root.join name) with
  | .ok s => some s
  | .error _ => none

/-- Something in the directory has the extension. -/
def hasExtension (t : FileTree) (root : Path) (extension : String) : Bool :=
  match t.resolve root with
  | .ok place => (t.names place).any fun n => (Path.splitName n).2 == some extension
  | .error _ => false

/-- The text names one of the packages. -/
def namesAny (text : String) (packages : List String) : Bool :=
  packages.any fun p => Text.contains text ("\"" ++ p ++ "\"")

/-- Points for Flutter. -/
def flutter (t : FileTree) (root : Path) : Nat :=
  (match textOf? t root "pubspec.yaml" with
    | some text => 3 + points 5 (Text.contains text "flutter:")
    | none => 0)
  + points 3 (hasAny t root ["lib/main.dart"])
  + points 1 (hasAny t root [".metadata", "analysis_options.yaml"])

/-- Points for React Native. -/
def reactNative (t : FileTree) (root : Path) : Nat :=
  (match textOf? t root "package.json" with
    | some text => points 8 (namesAny text ["react-native"]) + points 3 (namesAny text ["expo"])
    | none => 0)
  + points 2 (hasAny t root ["app.json", "metro.config.js"])
  + points 1 (t.isDirectory (root.join "ios") && t.isDirectory (root.join "android"))

/-- Points for the web. -/
def web (t : FileTree) (root : Path) : Nat :=
  (match textOf? t root "package.json" with
    | some text =>
      2 + points 3 (namesAny text ["react", "react-dom"])
        + points 1 (namesAny text ["next", "vite"])
    | none => 0)
  + points 1 (hasAny t root ["tsconfig.json", "index.html"])

/-- Points for iOS. -/
def ios (t : FileTree) (root : Path) : Nat :=
  points 5 (hasAny t root ["Info.plist", "AppDelegate.swift"])
  + points 3 (hasAny t root ["Podfile", "Package.swift"])
  + points 5 (hasExtension t root "xcodeproj" || hasExtension t root "xcworkspace")

/-- Points for Android. -/
def android (t : FileTree) (root : Path) : Nat :=
  points 5 (hasAny t root ["AndroidManifest.xml", "app/src/main/AndroidManifest.xml"])
  + (["build.gradle", "build.gradle.kts", "settings.gradle", "settings.gradle.kts"].map fun n =>
      points 2 (hasAny t root [n])).foldl (· + ·) 0
  + points 1 (hasAny t root ["gradlew"])

/-- The points of each platform, in the order that decides between equals. -/
def scores (t : FileTree) (root : Path) : List (Platform × Nat) :=
  [(.flutter, flutter t root), (.reactNative, reactNative t root), (.ios, ios t root),
   (.android, android t root), (.web, web t root)]

/-- The platform that the markers speak for. -/
def platform? (t : FileTree) (root : Path) : Option Platform :=
  let (platform, score) :=
    (scores t root).foldl (fun best s => if best.2 < s.2 then s else best) (Platform.web, 0)
  if score < 2 then none else some platform

end Mend.Markers
