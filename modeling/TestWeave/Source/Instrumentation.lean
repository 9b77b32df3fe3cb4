/-!
# Names the program knows

The names that tests are recognised by, and the package that instrumented calls go through.
-/

namespace TestWeave

namespace Known

/-- What the name of a test function begins with. -/
def testLead : String := "Test"

/-- The package that declares the test context and the suite driver. -/
def testingPackage : String := "testing"

/-- The type of a test context, in the testing package. -/
def contextType : String := "T"

/-- The type of a suite driver, in the testing package. -/
def driverType : String := "M"

/-- The method that runs a subtest or a suite. -/
def runMethod : String := "Run"

/-- The function that runs the suite of a package. -/
def suiteEntry : String := "TestMain"

/-- The entry point of a program. -/
def mainFunction : String := "main"

/-- The function of the testing package that makes a suite driver. -/
def mainStart : String := "MainStart"

/-- The name a suite driver is taken to have where none is seen to be bound. -/
def driverName : String := "m"

/-- The package with the function that ends a program. -/
def osPackage : String := "os"

/-- The function that ends a program. -/
def exitFunction : String := "Exit"

/-- Ends the name of a package of tests that stand outside the package they test. -/
def externalSuffix : String := "_test"

end Known

/-- The package that instrumented calls go through. -/
structure Instrumentation where
  /-- Its import path. -/
  importPath : String
  /-- The name it is imported under if that name is free. -/
  localName : String
  /-- Its function that runs a subtest. -/
  subtestEntry : String
  /-- Its function that runs a suite. -/
  suiteEntry : String
  deriving DecidableEq, Repr

namespace Instrumentation

/-- The package used where nothing else is configured. -/
def default : Instrumentation where
  importPath := "github.com/DataDog/dd-sdk-go-testing/autoinstrument"
  localName := "ddtesting"
  subtestEntry := "Run"
  suiteEntry := "RunM"

end Instrumentation

end TestWeave
