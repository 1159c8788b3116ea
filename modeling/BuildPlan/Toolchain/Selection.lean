import BuildPlan.Text.Split
import BuildPlan.Toolchain.Commands

/-!
# Toolchains

A toolchain is a platform and a profile together with their command templates. It also fixes the
names of what is built: executables, objects and the build directory.
-/

namespace BuildPlan

/-- Why there is no toolchain. -/
inductive ToolchainError where
  | unknownSystem (os : String)
  | unavailable (platform : Platform) (profile : Profile)
  deriving DecidableEq, Repr

namespace ToolchainError

def message : ToolchainError → String
  | unknownSystem os => "unsupported host platform: " ++ os
  | unavailable platform profile =>
    "profile " ++ profile.name ++ " is not available on " ++ platform.name

end ToolchainError

namespace Platform

def ofName (os : String) : Except ToolchainError Platform :=
  match ofName? os with
  | some platform => .ok platform
  | none => .error (.unknownSystem os)

/-- The profiles that the table has for a platform, in the order in which they are planned. -/
def profiles (platform : Platform) : List Profile :=
  Profile.all.filter fun profile => (Commands.lookup platform profile).isSome

end Platform

/-- A platform and a profile with the commands that build for them. -/
structure Toolchain where
  platform : Platform
  profile : Profile
  commands : Commands
  deriving DecidableEq, Repr

namespace Toolchain

/-- The toolchain of a platform and a profile. -/
def forProfile (platform : Platform) (profile : Profile) : Except ToolchainError Toolchain :=
  match Commands.lookup platform profile with
  | some commands => .ok ⟨platform, profile, commands⟩
  | none => .error (.unavailable platform profile)

/-- The two letters that name the build directory. -/
def tag (tc : Toolchain) : String :=
  tc.platform.tag ++ tc.profile.tag

/-- The file name of the executable `name`. -/
def program (tc : Toolchain) (name : String) : String :=
  name ++ tc.platform.programSuffix

/-- A source path without what follows the last dot of its last part. -/
def stem (source : String) : String :=
  match Text.splitLast '.' source.toList with
  | some (before, after) => if after.contains '/' then source else String.ofList before
  | none => source

/-- The object that a source is compiled to. -/
def objectOf (tc : Toolchain) (source : String) : String :=
  stem source ++ tc.platform.objectSuffix

end Toolchain

end BuildPlan
