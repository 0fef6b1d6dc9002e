import LintRepair.Command.Run

/-!
# What a run looks at

A run is a function of a file tree, but a tree of all files there are cannot be had. This file lists
the paths that a run looks at, as far as the tree tells: the reports, the root directory and the
configuration files are known from the start, the files to be repaired once the reports have been
read. Whoever holds a part of the tree adds what these paths lead to until nothing is new.
-/

namespace LintRepair.Command

def Options.configPaths (options : Options) (root : Path) : List Path :=
  options.config.toList ++ root.ancestors.map fun directory => directory.join Config.fileName

/-- The paths that the name of a file may mean. -/
def filePaths (tree : Tree) (setup : Setup) (file : String) : List Path :=
  let joined := setup.root.join (Path.ofText file)
  let name := Path.ofText (resolveFileName tree setup.root file)
  [joined, joined.normalized, setup.root.join name] ++
    (persistTarget setup.root name setup.settings.output).toOption.toList

/-- The paths that a run looks at. -/
def Request.paths (request : Request) (environment : Environment) (tree : Tree) : List Path :=
  let options := request.options
  let files :=
    match options.setup tree, Report.load tree environment.input options.reports with
    | .ok setup, .ok failures =>
        failures.flatMap fun failure => filePaths tree setup failure.file
    | _, _ => []
  let roots := options.root.toList
  let configs :=
    match options.rootPath tree with
    | .ok root => options.configPaths root
    | .error _ => []
  options.reports ++ roots ++ configs ++ files

end LintRepair.Command
