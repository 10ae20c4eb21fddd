import Permesh.Native.Session
import Permesh.Text

/-!
# Native.Adapters — what the adapters of the providers share

Every provider has its own `Adapter` and its own factory; the loop of `limitations`, the setup of the
HTTP client and the deadline around an operation read the same in all of them.
-/

namespace Permesh.Native

/-- The loop of `Adapter::limitations`: the code of each value, and each code once. -/
def codesOf (code : String → String) (values : List String) : List String :=
  values.foldl (fun result value =>
    if code value ∈ result then result else result ++ [code value]) []

/-- `u8::is_ascii_graphic`, of a character. -/
def isAsciiGraphic (c : Char) : Bool := '!' ≤ c && c ≤ '~'

/-- The check of a token that goes into a header. -/
def graphicToken (token : String) : Bool :=
  !token.isEmpty && Text.len token ≤ 16 * 1024 && token.toList.all isAsciiGraphic

/-- `network::invalid`. -/
def invalid : ProviderError where
  code := "configuration"
  message := "Invalid provider network context or HTTP client settings"

/-- `network::client_builder(network)?` and the `build` behind it, which may fail as well. -/
def httpClient (K : Crates) (network : Option NetworkContext) (builds : Bool)
    (failure : ProviderError) : Except ProviderError Unit :=
  if clientBuilder K network = false then .error invalid
  else if builds then .ok ()
  else .error failure

/-- `tokio::time::timeout` around an operation that returns `r` if it is not too late. -/
def within {α : Type} (inTime : Bool) (late : ProviderError) (r : Except ProviderError α) :
    Except ProviderError α :=
  if inTime then r else .error late

end Permesh.Native
