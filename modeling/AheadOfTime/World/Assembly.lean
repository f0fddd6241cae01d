/-! Assemblies: the row that defines one, and the identity derived from it. -/

namespace AheadOfTime

structure Version where
  major : UInt16
  minor : UInt16
  build : UInt16
  revision : UInt16
deriving DecidableEq

def Version.parts (v : Version) : List UInt16 := [v.major, v.minor, v.build, v.revision]

/-- The first part that differs decides. -/
def Version.le (v w : Version) : Bool :=
  if v.major ≠ w.major then v.major.toNat < w.major.toNat
  else if v.minor ≠ w.minor then v.minor.toNat < w.minor.toNat
  else if v.build ≠ w.build then v.build.toNat < w.build.toNat
  else v.revision.toNat ≤ w.revision.toNat

def Version.text (v : Version) : String :=
  ".".intercalate (v.parts.map fun part => toString part.toNat)

inductive ContentType where
  | default
  | windowsRuntime
deriving DecidableEq

def ContentType.text : ContentType → String
  | .default => "Default"
  | .windowsRuntime => "WindowsRuntime"

/-- A custom attribute of an assembly, named by its type. -/
structure Attribute where
  scope : String
  name : String
deriving DecidableEq

/-- An assembly as its defining row gives it. -/
structure Assembly where
  name : String
  version : Version
  publicKey : List UInt8
  culture : String
  flags : UInt32
  attributes : List Attribute

/-- Three bits of the flags tell the content type. -/
def contentTypeOf (flags : UInt32) : ContentType :=
  if (flags &&& 0x0e00) >>> 9 = 1 then .windowsRuntime else .default

/-- What tells an assembly from others. The neutral culture is `none`. -/
structure Assembly.Identity where
  name : String
  version : Version
  publicKey : List UInt8
  culture : Option String
  contentType : ContentType

namespace Assembly

def identity (a : Assembly) : Assembly.Identity where
  name := a.name
  version := a.version
  publicKey := a.publicKey
  culture := if a.culture = "" then none else some a.culture
  contentType := contentTypeOf a.flags

def has (a : Assembly) (attr : Attribute) : Bool := attr ∈ a.attributes

end Assembly

def Assembly.Identity.text (n : Assembly.Identity) : String :=
  n.name ++ ", Version=" ++ n.version.text ++ ", Culture=" ++ n.culture.getD "neutral" ++
    match n.contentType with
    | .default => ""
    | .windowsRuntime => ", ContentType=WindowsRuntime"

end AheadOfTime
