import ApiPages.Job
import ApiPages.Render.Site

/-! Writing a site or a single document into files. -/
namespace ApiPages.Render

def pagePath (directory : Files.Path) (page : Page) : Files.Path :=
  directory.join (Files.Path.ofText page.file)

def writePage (directory : Files.Path) (page : Page) : Job Files.FileError Files.Path := do
  let path := pagePath directory page
  Job.writeFile path page.content
  Job.note [.pageWritten path]
  return path

/-- All pages written into a directory, which is made if it is not there; the paths in the order of
writing. -/
def writePages (ctx : Context) (directory : Files.Path) :
    Job Files.FileError (List Files.Path) := do
  Job.makeDirectories directory
  Job.note (pagesNotices ctx)
  let written ← (pages ctx).mapM (writePage directory)
  Job.note [.pagesWritten written.length directory]
  return written

/-- The single document written, with the directories around it. -/
def writeDocument (ctx : Context) (path : Files.Path) : Job Files.FileError Unit := do
  Job.makeDirectories path.parent
  Job.note (documentNotices ctx)
  Job.writeFile path (document ctx)
  Job.note [.documentWritten path]

end ApiPages.Render
