import Decisya.Text.Utf16
import Decisya.Text.Xml
import Decisya.Time.Calendar

/-!
# The strict rule for key files

A key file passes only when its key material is wrapped by the certificate encryptor. Elements
are known by their local names, whatever their case.
-/

namespace Decisya.KeyRing

open Text.Xml

set_option autoImplicit false

/-- A UTC date and the ticks of 100 ns since its midnight. -/
structure DateTimeOffset where
  date : Calendar.Date
  tick : ℕ
  tick_valid : tick < 864000000000

namespace DateTimeOffset

def ticks (d : DateTimeOffset) : ℕ := d.date.toordinal * 864000000000 + d.tick

end DateTimeOffset

inductive KeyFileVerdict where
  | ok
  | unreadable
  | notRegularFile
  | plaintextMaterial
  | notCertificateWrapped
  deriving DecidableEq

structure KeyFileInfo where
  verdict : KeyFileVerdict
  keyId : Option Str
  expiration : Option DateTimeOffset
  wrappingFingerprints : List Str

namespace KeyRingFileRules

def certificateDecryptorType : Str :=
  "Microsoft.AspNetCore.DataProtection.XmlEncryption.EncryptedXmlDecryptor".toList

/-- Compared without case. Beyond ASCII nothing has an upper case in the words asked for. -/
def is (element : Element) (localName : String) : Bool :=
  element.name.localName.map Char.toUpper == localName.toList.map Char.toUpper

/-- `char.IsWhiteSpace` -/
def isWhiteSpace (c : Char) : Bool := c.toNat < 65536 && Text.isWhiteSpaceUnit c.toNat.toUInt16

def trim (s : Str) : Str := Text.trim isWhiteSpace s

/-- The decryptor's type name, up to the first comma. -/
def typeName (secret : Element) : Str :=
  trim (((secret.attribute? "decryptorType".toList).getD []).takeWhile (· ≠ ','))

section Inspect

-- `DateTimeOffset.TryParse`, and the SHA-256 fingerprint of a certificate in base 64
variable (tryParse : Str → Option DateTimeOffset) (certificateHash : Str → Option Str)

def fingerprints (secret : Element) : List Str :=
  (secret.descendants.filter (is · "X509Certificate")).filterMap fun element =>
    certificateHash (trim element.value)

def keyId (document : Document) : Option Str := document.root.attribute? "id".toList

def expiration (document : Document) : Option DateTimeOffset :=
  (document.root.children.elements.find? (is · "expirationDate")).bind fun e => tryParse e.value

def secrets (document : Document) : List Element :=
  document.descendants.filter (is · "encryptedSecret")

/-- `Inspect` of a document that was read; a document always has a root. -/
def inspect (document : Document) : KeyFileInfo :=
  let root := document.root
  let info (verdict : KeyFileVerdict) (wrapping : List Str) : KeyFileInfo :=
    ⟨verdict, keyId document, expiration tryParse document, wrapping⟩
  if document.descendants.any fun e => is e "masterKey" || is e "unencryptedKey" then
    info .plaintextMaterial []
  else if is root "revocation" && (secrets document).length == 0 then info .ok []
  else if !is root "key" then info .notCertificateWrapped []
  else
    match secrets document with
    | [secret] =>
      if typeName secret != certificateDecryptorType ||
          !secret.descendants.any (is · "EncryptedData") then
        info .notCertificateWrapped []
      else info .ok (fingerprints certificateHash secret)
    | _ => info .notCertificateWrapped []

end Inspect

end KeyRingFileRules

end Decisya.KeyRing
