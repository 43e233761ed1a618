import ProxyTiming.Json.Codec
import ProxyTiming.Text.Printable

/-!
# Credentials

A user name and a password for a proxy.  Shown to anyone but the proxy, the
password is redacted.
-/

namespace ProxyTiming.Socks

structure Credentials where
  username : String
  password : String
deriving DecidableEq

namespace Credentials

open ProxyTiming.Json

def redacted (c : Credentials) : String :=
  "Credentials \x7b username: " ++ Text.quoted c.username ++
    ", password: \"<redacted>\" \x7d"

def fields :=
  Fields.cons (Codec.field "username" Codec.string) <|
  Fields.cons (Codec.field "password" Codec.string) Fields.nil

def codec : Codec Credentials :=
  (Codec.record "struct Credentials" fields).map
    (fun (username, password, ()) => ⟨username, password⟩)
    (fun c => (c.username, c.password, ()))

end Credentials

end ProxyTiming.Socks
