import Coap.Option.Basic

/-!
The options by which a request names a URI.
-/
namespace Coap.Uri

/-- Host, port, path and query in this order; a port that the scheme implies is left out. -/
def options (u : Uri) : List MessageOption :=
  let host := u.host.toList.map MessageOption.uriHost
  let port := u.port.toList.filter fun p => u.scheme.map Scheme.defaultPort != some p
  host ++ port.map MessageOption.uriPort ++ u.path.map MessageOption.uriPath ++
    u.query.map MessageOption.uriQuery

end Coap.Uri
