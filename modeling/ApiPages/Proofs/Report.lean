import ApiPages.Proofs.Files.Change
import ApiPages.Proofs.Job
import ApiPages.Report

/-! What writing a file and a report does to the files, and how it can end. -/
namespace ApiPages

namespace Job

open Files

variable {written made : List Text → Prop}

end Job

namespace Report

open Files

end Report

namespace ReportPlace

open Files

end ReportPlace

namespace Report

open Files

end Report
end ApiPages
