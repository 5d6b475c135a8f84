import Poplar.Domain.Message

/-!
# The cache of answers: apps/pop_domain_cache.c

Map and queue hold the same results, no two of them of one host name, so a cache is
the list of its results in the order of the queue.
-/
namespace Poplar.Domain

def DNS_CACHE_RECORD_COUNTS_MAX : Nat := 1000

abbrev DnsCache := List DnsQueryResult

def dnsCacheLookupByHostname (cache : DnsCache) (hostname : List UInt8) : Option DnsQueryResult :=
  cache.find? fun r => r.hostName == hostname

def dnsCacheAdd (cache : DnsCache) (r : DnsQueryResult) : DnsCache := cache ++ [r]

def dnsCacheDel (cache : DnsCache) (r : DnsQueryResult) : DnsCache :=
  cache.eraseP fun other => other.hostName == r.hostName

def dnsCacheFreshnessUpdate (cache : DnsCache) (r : DnsQueryResult) : DnsCache :=
  if cache.getLast? = some r then cache else dnsCacheAdd (dnsCacheDel cache r) r

/-- `dns_result_tmp->ValidityEndTime = dns_result->ValidityEndTime` -/
def dnsCacheExtend (cache : DnsCache) (r : DnsQueryResult) : DnsCache :=
  cache.map fun other =>
    if other.hostName == r.hostName then { other with validityEndTime := r.validityEndTime }
    else other

def dnsCacheCheckAndDelete (cache : DnsCache) : DnsCache :=
  if cache.length > DNS_CACHE_RECORD_COUNTS_MAX then cache.drop (DNS_CACHE_RECORD_COUNTS_MAX / 3)
  else cache

/-- `DnsCacheValidityCheckTimeout` -/
def dnsCacheValidityCheck (cache : DnsCache) (currentTime : Nat) : DnsCache :=
  cache.filter fun r => currentTime < r.validityEndTime

end Poplar.Domain
