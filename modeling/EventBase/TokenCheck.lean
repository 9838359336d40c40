import Mathlib.Data.List.AList

/-! The token of the gRPC service. A string is its bytes; a header value holds any
bytes that are legal and reads as a string only if all of them are visible. -/

namespace EventBase

abbrev Bytes := List UInt8

def asBytes (text : String) : Bytes := text.toUTF8.toList

def constantTimeEq (a b : Bytes) : Bool :=
  if a.length ≠ b.length then false
  else (a.zip b).foldl (fun diff pair => diff ||| (pair.1 ^^^ pair.2)) 0 == 0

def scheme : Bytes := asBytes "Bearer "

/-- The bytes a header value may hold, and those it reads as a string; the HTTP library
decides. -/
structure HeaderRules where
  isLegal : UInt8 → Bool
  isVisible : UInt8 → Bool
  legal_of_visible : ∀ byte, isVisible byte = true → isLegal byte = true
  scheme_visible : scheme.all isVisible = true

/-- Opaque bytes are legal but not visible. -/
def HeaderRules.http : HeaderRules where
  isLegal byte := (32 ≤ byte && byte != 127) || byte == 9
  isVisible byte := (32 ≤ byte && byte < 127) || byte == 9
  legal_of_visible byte visible := by
    simp only [Bool.or_eq_true, Bool.and_eq_true, decide_eq_true_eq, bne_iff_ne] at visible ⊢
    refine visible.imp_left fun range => ⟨range.1, ?_⟩
    rintro rfl
    exact absurd range.2 (by decide)
  scheme_visible := by decide +kernel

variable {rules : HeaderRules}

/-- `AsciiMetadataValue`. -/
structure MetadataValue (rules : HeaderRules) where
  bytes : Bytes
  legal : bytes.all rules.isLegal = true

def MetadataValue.tryFrom (bytes : Bytes) : Option (MetadataValue rules) :=
  if legal : bytes.all rules.isLegal = true then some { bytes, legal } else none

def MetadataValue.toStr (value : MetadataValue rules) : Option Bytes :=
  if value.bytes.all rules.isVisible then some value.bytes else none

abbrev MetadataMap (rules : HeaderRules) := AList fun _ : String => MetadataValue rules

/-- `Status::unauthenticated`. -/
structure Unauthenticated where
  message : String
  deriving DecidableEq

def stripPrefix (start text : Bytes) : Option Bytes :=
  if start.isPrefixOf text then some (text.drop start.length) else none

def authorization (metadata : MetadataMap rules) : Option Bytes :=
  (metadata.lookup "authorization").bind MetadataValue.toStr

def checkToken (metadata : MetadataMap rules) (token : Bytes) : Except Unauthenticated Unit :=
  match authorization metadata with
  | none => .error ⟨"missing authorization metadata"⟩
  | some provided =>
    let provided := (stripPrefix scheme provided).getD provided
    if constantTimeEq provided token then .ok () else .error ⟨"invalid token"⟩

def attachToken (metadata : MetadataMap rules) (token : Bytes) : MetadataMap rules :=
  match MetadataValue.tryFrom (scheme ++ token) with
  | some value => metadata.insert "authorization" value
  | none => metadata

/-- `AuthInterceptor`; the request is its metadata. -/
structure AuthInterceptor where
  token : Bytes

def AuthInterceptor.call (interceptor : AuthInterceptor) (metadata : MetadataMap rules) : MetadataMap rules :=
  if !interceptor.token.isEmpty then attachToken metadata interceptor.token else metadata

end EventBase
